import Mathlib.Algebra.Group.Int.Defs
import Mathlib.Algebra.GroupWithZero.Nat
import Mathlib.Data.List.Basic

/-! # What the C code shares

    Error numbers, the three ways a call can end, and byte strings. A C
    string is the list of its bytes without the terminating NUL; a buffer is
    the list of its bytes.
-/

universe u

namespace SdCompat

open List Option

/-- The error numbers the modelled functions return (negated, in C). -/
inductive Errno where
  | EPERM | EIO | ENXIO | ENOMEM | EEXIST | EINVAL | ERANGE | EBADMSG
  | ENOBUFS | ECONNRESET | EBUSY | ESTALE | EOPNOTSUPP | ENOMSG | EBADF
  | EAGAIN | EINTR | ENOTSOCK | EXFULL | EPIPE | ENOTCONN | ETIMEDOUT
  | EDOM | EOVERFLOW | EPROTOTYPE | EUCLEAN | ELNRNG | ENODATA | EPROTO
  | EMEDIUMTYPE | ENOANO | EBADE | ECANCELED | EDEADLK | ESRCH | ETIME
  | ENOTUNIQ | ENETUNREACH | ELOOP | ENOENT | ENOTDIR | EXDEV | EREMCHG
  | EADDRNOTAVAIL | ENOTTY | EACCES | EBADR | EDESTADDRREQ | ECHRNG | ENOMEDIUM
  | ENAMETOOLONG | E2BIG
  deriving DecidableEq, Repr

/-- `ERRNO_IS_TRANSIENT` -/
def ERRNO_IS_TRANSIENT (e : Errno) : Bool := e == Errno.EAGAIN || e == Errno.EINTR

/-- `ERRNO_IS_DISCONNECT`, of the errors there are here. -/
def ERRNO_IS_DISCONNECT (e : Errno) : Bool :=
  e == .ECONNRESET || e == .ENOTCONN || e == .EPIPE || e == .ETIMEDOUT || e == .EPROTO

/-- How a C call ends: it returns, it returns a negative error number, or an
    assertion fails and the process aborts. -/
inductive Outcome (α : Type u) where
  | ok (a : α)
  | err (e : Errno)
  | abort
  deriving DecidableEq, Repr

namespace Outcome

variable {α β : Type u}

/-- The call returned a value that is not an error. -/
def isOk : Outcome α → Bool
  | ok _ => true
  | _ => false

/-- Sequencing: errors and aborts end the calling function too. -/
def bind (x : Outcome α) (f : α → Outcome β) : Outcome β :=
  match x with
  | ok a => f a
  | err e => err e
  | abort => abort

instance : Monad Outcome where
  pure := ok
  bind := bind

@[simp] theorem pure_eq (a : α) : (pure a : Outcome α) = ok a := rfl

@[simp] theorem ok_bind (a : α) (f : α → Outcome β) : (ok a >>= f) = f a := rfl

@[simp] theorem err_bind (e : Errno) (f : α → Outcome β) :
    ((err e : Outcome α) >>= f) = err e := rfl

@[simp] theorem abort_bind (f : α → Outcome β) : ((abort : Outcome α) >>= f) = abort := rfl

variable {f : α → Outcome β} {x : Outcome α}

/-- A sequence succeeds exactly when both its parts do. -/
theorem bind_eq_ok {b : β} : (x >>= f) = ok b ↔ ∃ a, x = ok a ∧ f a = ok b := by
  cases x with
  | ok a => simp
  | err e => simp
  | abort => simp

/-- A sequence aborts when its first part does, or when the second does on
    the first's result. -/
theorem bind_eq_abort : (x >>= f) = abort ↔ x = abort ∨ ∃ a, x = ok a ∧ f a = abort := by
  cases x with
  | ok a => simp
  | err e => simp
  | abort => simp

end Outcome

/-- The bytes of a string literal of the source. -/
def ascii (s : String) : List UInt8 := s.toList.map fun c => c.toNat.toUInt8

/-- What holds of every byte when it is computed. -/
theorem forall_byte {P : UInt8 → Prop} [DecidablePred P]
    (h : ∀ n : Fin 256, P (UInt8.ofNat n.val)) (c : UInt8) : P c := by
  have hc := h ⟨c.toNat, UInt8.toNat_lt c⟩
  rwa [UInt8.ofNat_toNat] at hc

/-- `"\r\n"`, the end of a line of the authentication protocol. -/
def crlf : List UInt8 := [0x0d, 0x0a]

/-! ## Searching a buffer -/

/-- `memmem_safe`: the offset of the first occurrence of `needle`. -/
def memmem_safe (haystack needle : List UInt8) : Option Nat :=
  if needle.isPrefixOf haystack then
    some 0
  else
    match haystack with
    | [] => none
    | _ :: rest => (memmem_safe rest needle).map (· + 1)

/-- `memory_startswith`: what follows `token` when the memory starts with it. -/
def memory_startswith (p token : List UInt8) : Option (List UInt8) :=
  if token.isPrefixOf p then some (p.drop token.length) else none

section memmem
variable {h t needle : List UInt8} {i : Nat}

section
variable (hi : memmem_safe h needle = some i)
include hi

/-- The offset found is an occurrence. -/
theorem memmem_safe_isPrefix : needle <+: h.drop i := by
  induction h generalizing i with
  | nil =>
    unfold memmem_safe at hi
    split at hi
    · next hp =>
      simpa using hp
    · simp at hi
  | cons a rest ih =>
    unfold memmem_safe at hi
    split at hi
    · next hp =>
      obtain rfl : 0 = i := some.inj hi
      simpa using hp
    · obtain ⟨j, hj, rfl⟩ := map_eq_some_iff.mp hi
      simpa using ih hj

/-- There is no occurrence before the one found. -/
theorem memmem_safe_first {j : Nat} (hj : j < i) : ¬ needle <+: h.drop j := by
  induction h generalizing i j with
  | nil =>
    unfold memmem_safe at hi
    split at hi
    · obtain rfl : 0 = i := some.inj hi
      omega
    · simp at hi
  | cons a rest ih =>
    unfold memmem_safe at hi
    split at hi
    · obtain rfl : 0 = i := some.inj hi
      omega
    · next hp =>
      obtain ⟨k, hk, rfl⟩ := map_eq_some_iff.mp hi
      match j with
      | 0 => simpa using hp
      | j + 1 => exact ih hk (by omega)

/-- The occurrence found lies inside the buffer. -/
theorem memmem_safe_le : i + needle.length ≤ h.length ∨ needle = [] := by
  have hlen := (memmem_safe_isPrefix hi).length_le
  rw [length_drop] at hlen
  by_cases hn : needle = []
  · exact Or.inr hn
  · have : 0 < needle.length := length_pos_iff.mpr hn
    left; omega

/-- An occurrence found in a buffer is found at the same place when more
    bytes follow. -/
theorem memmem_safe_append : memmem_safe (h ++ t) needle = some i := by
  induction h generalizing i with
  | nil =>
    unfold memmem_safe at hi
    split at hi
    · next hp =>
      obtain rfl : 0 = i := some.inj hi
      have hnil : needle = [] := by simpa using hp
      unfold memmem_safe
      simp [hnil]
    · simp at hi
  | cons a rest ih =>
    rw [memmem_safe.eq_def] at hi
    split at hi
    · next hp =>
      obtain rfl : 0 = i := some.inj hi
      have hp' : needle.isPrefixOf (a :: rest ++ t) = true := by
        rw [List.isPrefixOf_iff_prefix] at hp ⊢
        exact hp.trans (prefix_append _ _)
      rw [memmem_safe.eq_def, if_pos hp']
    · next hp =>
      obtain ⟨j, hj, rfl⟩ := map_eq_some_iff.mp hi
      have hle := memmem_safe_isPrefix hj
      have hp' : ¬ needle.isPrefixOf (a :: rest ++ t) = true := by
        rw [List.isPrefixOf_iff_prefix] at hp ⊢
        intro hpre
        refine hp (prefix_of_prefix_length_le hpre (prefix_append _ _) ?_)
        have := hle.length_le
        rw [length_drop] at this
        simp only [length_cons]; omega
      rw [memmem_safe.eq_def, if_neg hp']
      simp [ih hj]

end

end memmem

end SdCompat
