import SdCompat.Basic.PathUtil
import SdCompat.Lib.FileTree
import SdCompat.Lib.Transition

/-! # Chasing a path (chase.c)

    `chaseat` follows a path, component by component, and keeps the directory
    it is at open. `done` is the path to that directory as it was when it was
    opened, and `todo` is what is left of the path.

    A descriptor stands for what it refers to, which is what `statx` tells apart
    by inode and mount. Other processes may move directories at any time; a step
    of the loop looks names up twice at most, and the trees it sees then can
    differ.
-/

namespace SdCompat.Chase

open FileTree PathUtil

variable {ν : Type}

/-! ## Section 1: The tree, and descriptors -/

/-- The file system. Names and the targets of links are texts. -/
abbrev Files (ν : Type) := Tree ν Text Text

/-- The first argument of `openat` and its like. -/
inductive DirFd where
  | XAT_FDROOT
  | AT_FDCWD
  | fd (n : Nat)
  deriving DecidableEq, Repr

/-- What the descriptors of a process refer to. -/
structure Process (ν : Type) where
  cwd : ν
  fds : Nat → ν

def Process.node (p : Process ν) (t : Files ν) : DirFd → ν
  | .XAT_FDROOT => t.top
  | .AT_FDCWD => p.cwd
  | .fd n => p.fds n

variable [DecidableEq ν]

/-- `dir_fd_is_root` -/
def dir_fd_is_root (p : Process ν) (t : Files ν) (dir_fd : DirFd) : Bool :=
  p.node t dir_fd = t.top

/-- What is at a name in a directory, with `O_NOFOLLOW`. -/
def openat (t : Files ν) (fd : ν) (name : Text) : Outcome ν :=
  if t.kind fd = .directory then
    match t.child fd name with
    | some child => .ok child
    | none => .err .ENOENT
  else .err .ENOTDIR

/-- `".."`, in a directory. -/
def openat_parent (t : Files ν) (fd : ν) : Outcome ν :=
  if t.kind fd = .directory then .ok (t.parent fd) else .err .ENOTDIR

/-- `readlinkat_malloc` -/
def readlinkat_malloc (t : Files ν) (fd : ν) (name : Text) : Outcome Text := do
  let child ← openat t fd name
  match t.kind child with
  | .link target => .ok target
  | _ => .err .EINVAL

/-! ## Section 2: The loop -/

def CHASE_MAX : Nat := 128

/-- What does not change in the loop. `CHASE_MUST_BE_DIRECTORY` is the one flag
    there is; `ret_path` says whether the caller wants the path. -/
structure ChaseArgs (ν : Type) where
  root_fd : DirFd
  dir_fd : DirFd
  root : ν
  dir : ν
  must_be_directory : Bool
  ret_path : Bool
  deriving DecidableEq

/-- What the loop keeps from one step to the next. -/
structure ChaseLoop (ν : Type) where
  n_steps : Nat
  fd : ν
  need_absolute : Bool
  done : Option Text
  todo : Text
  deriving DecidableEq

/-- Whether `".."` leads nowhere, with a root. -/
def is_root (c : ChaseArgs ν) (l : ChaseLoop ν) : Bool :=
  c.root_fd = c.dir_fd && empty_or_root l.done || l.fd = c.root

/-- What becomes of the path one has come by, on the way up. -/
def chase_parent (l : ChaseLoop ν) (fd_parent : ν) : Outcome (ChaseLoop ν) :=
  match path_extract_directory l.done with
  | .ok parent =>
    if l.need_absolute && !path_is_absolute parent then .abort
    else .ok { l with fd := fd_parent, done := some parent }
  | .err .EDESTADDRREQ =>
    -- a filename only
    if l.need_absolute then .abort else .ok { l with fd := fd_parent, done := none }
  | .err .EADDRNOTAVAIL => .abort
  | .err .EINVAL =>
    -- nothing, or it ends with ".."
    if l.need_absolute then .abort
    else if l.done.getD [] ≠ [] ∧ path_is_valid (l.done.getD []) = false then .err .EINVAL
    else .ok { l with fd := fd_parent, done := some (path_extend l.done dot_dot) }
  | .err e => .err e
  | .abort => .abort

/-- A component that is `".."`. -/
def chase_up (c : ChaseArgs ν) (t : Files ν) (l : ChaseLoop ν) : Outcome (ChaseLoop ν) :=
  if c.root_fd ≠ .XAT_FDROOT ∧ is_root c l = true then .ok l
  else do
    let fd_parent ← openat_parent t l.fd
    if fd_parent = l.fd ∧ l.fd = t.top then .ok l
    else chase_parent l fd_parent

/-- A link. -/
def chase_link (c : ChaseArgs ν) (l : ChaseLoop ν) (destination : Text) :
    Outcome (ChaseLoop ν) :=
  if destination = [] then .err .EINVAL
  else
    let todo := path_extend (some destination) l.todo
    if path_is_absolute destination then
      let need_absolute := l.need_absolute || c.dir_fd ≠ c.root_fd
      .ok { l with
        fd := c.root
        need_absolute
        done := if need_absolute then some [slash] else none
        todo }
    else .ok { l with todo }

/-- Another component. The link is read a moment after it was found. -/
def chase_down (c : ChaseArgs ν) (t t' : Files ν) (l : ChaseLoop ν) (first : Text) :
    Outcome (ChaseLoop ν) := do
  let child ← openat t l.fd first
  match t.kind child with
  | .link _ => do
    let destination ← readlinkat_malloc t' l.fd first
    chase_link c l destination
  | _ => .ok { l with fd := child, done := some (path_extend l.done first) }

/-- What becomes of a component. -/
def chase_component (c : ChaseArgs ν) (t t' : Files ν) (l : ChaseLoop ν) (first : Text) :
    Outcome (ChaseLoop ν) :=
  if first = dot_dot then chase_up c t l else chase_down c t t' l first

/-- One step of the loop, or its end. -/
def chase_step (c : ChaseArgs ν) (t t' : Files ν) (l : ChaseLoop ν) :
    Outcome (Option (ChaseLoop ν)) :=
  match path_find_first_component l.todo true with
  | .ok (none, _) => .ok none
  | .ok (some first, todo) => do
    let l ← chase_component c t t' { l with todo, n_steps := l.n_steps + 1 } first
    .ok (some l)
  | .err e => .err e
  | .abort => .abort

/-- What follows the loop: what is pinned, and the path that is returned. -/
def chase_finish (c : ChaseArgs ν) (t : Files ν) (l : ChaseLoop ν) : Outcome (ν × Option Text) :=
  if c.must_be_directory ∧ t.kind l.fd ≠ .directory then .err .ENOTDIR
  else if c.ret_path then
    match l.done with
    | none => if l.need_absolute then .abort else .ok (l.fd, some [dot])
    | some done => .ok (l.fd, some done)
  else .ok (l.fd, none)

/-- The loop, in a tree that does not change, with `left` steps to go until
    `n_steps` is more than `CHASE_MAX`. -/
def chase_loop (c : ChaseArgs ν) (t : Files ν) : Nat → ChaseLoop ν → Outcome (ν × Option Text)
  | 0, _ => .err .ELOOP
  | left + 1, l =>
    match chase_step c t t l with
    | .ok none => chase_finish c t l
    | .ok (some l) => chase_loop c t left l
    | .err e => .err e
    | .abort => .abort

/-! ## Section 3: Before the loop -/

/-- Whether the path says that it leads to a directory. -/
def names_directory (path : Text) : Bool :=
  [slash].isSuffixOf path || [slash, dot].isSuffixOf path || path = [dot] || path = dot_dot ||
    (slash :: dot_dot).isSuffixOf path

/-- What `chaseat` makes of its arguments, and the path. -/
def chase_args (p : Process ν) (t : Files ν) (root_fd dir_fd : DirFd) (path : Text)
    (must_be_directory ret_path : Bool) : ChaseArgs ν × Text :=
  let root_fd :=
    if root_fd = .AT_FDCWD ∨ dir_fd_is_root p t root_fd then .XAT_FDROOT else root_fd
  let dir_fd := if dir_fd_is_root p t dir_fd ∧ root_fd = .XAT_FDROOT then .XAT_FDROOT else dir_fd
  let dir_fd := if dir_fd = .XAT_FDROOT ∨ path_is_absolute path then root_fd else dir_fd
  let path := if path = [] then [dot] else path
  (⟨root_fd, dir_fd, p.node t root_fd, p.node t dir_fd,
    must_be_directory || names_directory path, ret_path⟩, path)

/-- Where the loop starts. -/
def chase_start (c : ChaseArgs ν) (t : Files ν) (path : Text) : Outcome (ChaseLoop ν) :=
  let need_absolute := (c.root_fd = .XAT_FDROOT || c.dir_fd ≠ c.root_fd) &&
    (c.dir_fd = .XAT_FDROOT || path_is_absolute path)
  if t.kind c.dir = .directory then
    .ok ⟨0, c.dir, need_absolute, if need_absolute then some [slash] else none, path⟩
  else .err .ENOTDIR

end SdCompat.Chase
