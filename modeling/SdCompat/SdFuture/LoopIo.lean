import Mathlib.Data.List.Infix
import SdCompat.Basic.Common

/-! # Looping reads and writes, on and off a fiber (io-util.c, fiber-io.c)

    `loop_write_full` without a timeout and `loop_read` with `do_poll`, on a
    descriptor whose calls return what a list says, one after the other. They
    wait when the list ends.
-/

namespace SdCompat.LoopIo

open List

/-! ## Section 1: Model -/

/-- What a system call returns: a number, for a read with the bytes there are,
    or an error. -/
inductive Reply (α : Type) where
  | done (a : α)
  | error (e : Errno)
  deriving DecidableEq

/-- The result and what has been transferred; `none` while it waits. -/
abbrev Result (α : Type) := Option (Outcome α × List UInt8)

/-- The loop of `loop_write_full` off a fiber, with what is left to write and
    what has been written. An error that goes away is followed by a wait, of
    which the result is ignored, or by nothing. -/
def loop_write_plain : List UInt8 → List UInt8 → List (Reply Nat) → Result Unit
  | _, _, [] => none
  | p, sent, .error e :: l =>
    if ERRNO_IS_TRANSIENT e then loop_write_plain p sent l else some (.err e, sent)
  | p, sent, .done k :: l =>
    if p ≠ [] && k = 0 then some (.err Errno.EIO, sent)
    else if p.length < k then some (.abort, sent)
    else if p.length = k then some (.ok ⟨⟩, sent ++ p)
    else loop_write_plain (p.drop k) (sent ++ p.take k) l

/-- `fiber_io_operation`, on a fiber that is not cancelled: the call is made
    again after an error that goes away, and its result returned. -/
def fiber_io_operation {α : Type} : List (Reply α) → Option (Reply α × List (Reply α))
  | [] => none
  | .error e :: l =>
    if ERRNO_IS_TRANSIENT e then l.head?.map fun r => (r, l.tail) else some (.error e, l)
  | r :: l => some (r, l)

/-- The loop of `loop_write_full` on a fiber, in at most `fuel` rounds. -/
def loop_write_fiber : Nat → List UInt8 → List UInt8 → List (Reply Nat) → Result Unit
  | 0, _, _, _ => none
  | fuel + 1, p, sent, l =>
    if p = [] then some (.ok ⟨⟩, sent)
    else
      match fiber_io_operation l with
      | none => none
      | some (.error e, _) => some (.err e, sent)
      | some (.done k, l) =>
        if k = 0 then some (.err Errno.EIO, sent)
        else if p.length < k then some (.abort, sent)
        else loop_write_fiber fuel (p.drop k) (sent ++ p.take k) l

/-- The loop of `loop_read` off a fiber, with what is still asked for and what
    has been read. -/
def loop_read_plain : Nat → List UInt8 → List (Reply (List UInt8)) → Result Nat
  | _, _, [] => none
  | nbytes, got, .error e :: l =>
    if ERRNO_IS_TRANSIENT e then loop_read_plain nbytes got l
    else some (if got = [] then .err e else .ok got.length, got)
  | nbytes, got, .done bytes :: l =>
    if bytes = [] then some (.ok got.length, got)
    else if nbytes < bytes.length then some (.abort, got)
    else if nbytes = bytes.length then some (.ok (got ++ bytes).length, got ++ bytes)
    else loop_read_plain (nbytes - bytes.length) (got ++ bytes) l

/-- And on a fiber. -/
def loop_read_fiber : Nat → Nat → List UInt8 → List (Reply (List UInt8)) → Result Nat
  | 0, _, _, _ => none
  | fuel + 1, nbytes, got, l =>
    match fiber_io_operation l with
    | none => none
    | some (.error e, _) => some (if got = [] then .err e else .ok got.length, got)
    | some (.done bytes, l) =>
      if bytes = [] then some (.ok got.length, got)
      else if nbytes < bytes.length then some (.abort, got)
      else if nbytes = bytes.length then some (.ok (got ++ bytes).length, got ++ bytes)
      else loop_read_fiber fuel (nbytes - bytes.length) (got ++ bytes) l

/-! ## Section 2: What agrees -/

def Reply.transient {α : Type} : Reply α → Bool
  | .done _ => false
  | .error e => ERRNO_IS_TRANSIENT e

/-- No call that is made again after a wait has an error that goes away. -/
def Prompt {α : Type} (l : List (Reply α)) : Prop :=
  l.IsChain fun r r' => r.transient = true → r'.transient = false

def Reply.bytes : Reply (List UInt8) → List UInt8
  | .done b => b
  | .error _ => []

/-- A write succeeds when all is written, once and in order, and fails for an
    error of the descriptor, or when it takes nothing. It does not return more
    than it was given. -/
def Wrote (buf : List UInt8) (l : List (Reply Nat)) : Result Unit → Prop
  | none => True
  | some (.ok _, sent) => sent = buf
  | some (.err e, sent) => sent <+: buf ∧
      (ERRNO_IS_TRANSIENT e = false ∧ .error e ∈ l ∨ e = Errno.EIO ∧ .done 0 ∈ l)
  | some (.abort, sent) => ∃ k, .done k ∈ l ∧ buf.length < sent.length + k

/-- A read returns what the calls have read, in order, up to what is asked for,
    the end of the file, or an error of the descriptor; that is returned when
    nothing was read. -/
def Read (nbytes : Nat) (l : List (Reply (List UInt8))) : Result Nat → Prop
  | none => True
  | some (.ok n, got) => n = got.length ∧ (∃ l', l' <+: l ∧ got = l'.flatMap Reply.bytes) ∧
      (n = nbytes ∨ .done [] ∈ l ∨ 0 < n ∧ ∃ e, ERRNO_IS_TRANSIENT e = false ∧ .error e ∈ l)
  | some (.err e, got) => got = [] ∧ ERRNO_IS_TRANSIENT e = false ∧ .error e ∈ l
  | some (.abort, got) => ∃ b, .done b ∈ l ∧ nbytes < got.length + b.length

/-! ## Section 3: The loops -/

variable {fuel nbytes : Nat} {p sent got : List UInt8}

/-- What a call on a fiber returns, where a loop goes on after an error that goes
    away. -/
theorem operation_ok {α β : Type} {F : List (Reply α) → Option β} {l : List (Reply α)}
    (hnil : F [] = none) (hskip : ∀ e l, ERRNO_IS_TRANSIENT e = true → F (.error e :: l) = F l)
    (hl : Prompt l) : fiber_io_operation l = none ∧ F l = none ∨
      ∃ r l', fiber_io_operation l = some (r, l') ∧ r.transient = false ∧ F l = F (r :: l') ∧
        Prompt l' ∧ l'.length < l.length := by
  cases l with
  | nil => exact .inl ⟨rfl, hnil⟩
  | cons r l =>
    have htail : Prompt l := IsChain.of_cons hl
    cases r with
    | done a => exact .inr ⟨_, l, rfl, rfl, rfl, htail, Nat.lt_succ_self _⟩
    | error e =>
      unfold fiber_io_operation
      dsimp only
      cases he : ERRNO_IS_TRANSIENT e with
      | false => exact .inr ⟨.error e, l, rfl, he, rfl, htail, Nat.lt_succ_self _⟩
      | true =>
        rw [hskip e l he]
        cases l with
        | nil => exact .inl ⟨rfl, hnil⟩
        | cons r' l =>
          refine .inr ⟨r', l, rfl, ?_, rfl, IsChain.of_cons htail, ?_⟩
          · exact (isChain_cons_cons.mp hl).1 he
          · exact Nat.lt_succ_of_lt (Nat.lt_succ_self _)

theorem write_agrees {l : List (Reply Nat)} (hl : Prompt l) (hp : p ≠ []) (hfuel : l.length < fuel) :
    loop_write_fiber fuel p sent l = loop_write_plain p sent l := by
  induction fuel generalizing p sent l with
  | zero => cases hfuel
  | succ fuel ih =>
    unfold loop_write_fiber
    rw [if_neg hp]
    rcases operation_ok (F := loop_write_plain p sent) rfl (fun e l he => if_pos he) hl with
      ⟨hop, hplain⟩ | ⟨r, l', hop, hr, hplain, hl', hlt⟩
    · rw [hop, hplain]
    · rw [hop, hplain]
      cases r with
      | error e => exact (if_neg (Bool.not_eq_true _ ▸ hr)).symm
      | done k =>
        dsimp only [loop_write_plain]
        rw [decide_eq_true hp, Bool.true_and]
        simp only [decide_eq_true_eq]
        split
        · rfl
        split
        · rfl
        split
        · next hk =>
          -- all is written, and the loop ends in the next round
          obtain ⟨fuel, rfl⟩ : ∃ m, fuel = m + 1 := ⟨fuel - 1, by omega⟩
          subst hk
          unfold loop_write_fiber
          rw [if_pos (drop_length ..), take_length]
        · next hk =>
          refine ih hl' (fun hnil => ?_) (by omega)
          have := drop_eq_nil_iff.mp hnil
          omega

theorem read_agrees {l : List (Reply (List UInt8))} (hl : Prompt l) (hfuel : l.length < fuel) :
    loop_read_fiber fuel nbytes got l = loop_read_plain nbytes got l := by
  induction fuel generalizing nbytes got l with
  | zero => cases hfuel
  | succ fuel ih =>
    unfold loop_read_fiber
    rcases operation_ok (F := loop_read_plain nbytes got) rfl (fun e l he => if_pos he) hl with
      ⟨hop, hplain⟩ | ⟨r, l', hop, hr, hplain, hl', hlt⟩
    · rw [hop, hplain]
    · rw [hop, hplain]
      cases r with
      | error e => exact (if_neg (Bool.not_eq_true _ ▸ hr)).symm
      | done b =>
        dsimp only [loop_read_plain]
        rw [ih hl' (by omega)]

theorem write_plain_ok {buf : List UInt8} {l₀ l : List (Reply Nat)} (hsub : l <:+ l₀)
    (hbuf : sent ++ p = buf) : Wrote buf l₀ (loop_write_plain p sent l) := by
  induction l generalizing p sent with
  | nil => trivial
  | cons r l ih =>
    have hmem : r ∈ l₀ := hsub.subset (.head _)
    have hsub' : l <:+ l₀ := (suffix_cons r l).trans hsub
    have hpre : sent <+: buf := ⟨p, hbuf⟩
    cases r with
    | error e =>
      unfold loop_write_plain
      cases he : ERRNO_IS_TRANSIENT e with
      | true =>
        exact ih hsub' hbuf
      | false =>
        exact ⟨hpre, .inl ⟨he, hmem⟩⟩
    | done k =>
      unfold loop_write_plain
      split
      · next hzero =>
        rw [Bool.and_eq_true] at hzero
        exact ⟨hpre, .inr ⟨rfl, of_decide_eq_true hzero.2 ▸ hmem⟩⟩
      split
      · next hlong =>
        refine ⟨k, hmem, ?_⟩
        rw [← hbuf, length_append]
        omega
      split
      · exact hbuf
      · refine ih hsub' ?_
        rw [append_assoc, take_append_drop, hbuf]

theorem read_plain_ok {l₀ l₁ l : List (Reply (List UInt8))} (hl : l₀ = l₁ ++ l)
    (hgot : got = l₁.flatMap Reply.bytes) {total : Nat} (htotal : got.length + nbytes = total) :
    Read total l₀ (loop_read_plain nbytes got l) := by
  induction l generalizing nbytes got l₁ with
  | nil => trivial
  | cons r l ih =>
    have hmem : r ∈ l₀ := by simp [hl]
    have hl' : l₀ = (l₁ ++ [r]) ++ l := by simp [hl]
    have hsofar : ∃ l', l' <+: l₀ ∧ got = l'.flatMap Reply.bytes :=
      ⟨l₁, ⟨r :: l, hl.symm⟩, hgot⟩
    cases r with
    | error e =>
      unfold loop_read_plain
      cases he : ERRNO_IS_TRANSIENT e with
      | true =>
        exact ih hl' (by simp [hgot, Reply.bytes]) htotal
      | false =>
        by_cases hnone : got = []
        · rw [if_pos hnone]
          exact ⟨hnone, he, hmem⟩
        · rw [if_neg hnone]
          exact ⟨rfl, hsofar, .inr (.inr ⟨length_pos_iff.mpr hnone, e, he, hmem⟩)⟩
    | done b =>
      have hnext : got ++ b = (l₁ ++ [Reply.done b]).flatMap Reply.bytes := by
        simp [hgot, Reply.bytes]
      unfold loop_read_plain
      split
      · next hb => exact ⟨rfl, hsofar, .inr (.inl (hb ▸ hmem))⟩
      split
      · exact ⟨b, hmem, by omega⟩
      split
      · refine ⟨rfl, ⟨_, ⟨l, hl'.symm⟩, hnext⟩, .inl ?_⟩
        rw [length_append]
        omega
      · refine ih hl' hnext ?_
        rw [length_append]
        omega

end SdCompat.LoopIo
