import Mathlib.Data.List.Count
import SdCompat.Basic.Common
import SdCompat.Lib.Transition

/-! # The life of a future (sd-future.c)

    A future is resolved once, calls its callback, resolves its waiters, and is
    freed with its last reference. The callbacks and the functions of an
    implementation do what they want meanwhile, with this future and with
    others, so what is under way is a stack here: the functions of sd-future.c
    that have not returned, with the program or one of its callbacks on top.

    The program uses futures that are there, and gives back references that it
    has. The wait futures are those of sd-future.c, the others have functions
    of the program for `cancel` and `free`.
-/

open Transition

namespace SdCompat.Future

open List Option Function Nat

/-! ## Section 1: Data -/

def UINT_MAX : Nat := 2 ^ 32 - 1
def ECANCELED : Int := 125
def ENOMEM : Int := 12

/-- `RET_GATHER` -/
def RET_GATHER (acc err : Int) : Int := if 0 ≤ acc ∧ err < 0 then err else acc

/-- `sd_future`. The callback is there or not, and a wait future has a
    target. -/
structure SdFuture where
  n_ref : Nat
  resolved : Bool
  result : Int
  waiters : List Nat
  callback : Bool
  target : Option Nat
  deriving DecidableEq, Repr

/-- What has not returned. -/
inductive Frame where
  /-- Functions of the program: the callback of a future, its `cancel` and its
      `free`. -/
  | callback (f : Nat)
  | cancel (f : Nat)
  | free (f : Nat)
  /-- `sd_future_resolve`: behind the callback, at the head of the loop, and
      behind the call in the loop. -/
  | called (f : Nat) (result : Int)
  | waiters (f : Nat) (ws : List Nat) (result r : Int)
  | waited (f : Nat) (ws : List Nat) (result r : Int)
  /-- A reference that is still to be given back, and the value returned. -/
  | unref (f : Nat)
  | give (r : Int)
  /-- `sd_future_free`, behind `f->ops->free (f)`. -/
  | mfree (f : Nat)
  /-- `sd_future_new_wait`, behind the call of `sd_future_resolve`. -/
  | new_wait (w : Nat)
  deriving DecidableEq, Repr

/-- What has happened to a future. One that is resolved as a waiter, or as a
    wait future for a target that was resolved already, is so by its target. -/
inductive Event where
  | resolved (result : Int) (by_target : Option Nat) (callback : Bool)
  | called
  deriving DecidableEq, Repr

structure State where
  futures : Nat → Option SdFuture
  next : Nat
  /-- The references the program has. -/
  owned : Nat → Nat
  stack : List Frame
  /-- What the last call returned. -/
  ret : Int
  history : Nat → List Event
  /-- An assertion has failed, or a future was accessed that is not there. -/
  crashed : Bool

/-! ## Section 2: Functions -/

namespace State

def crash (s : State) : State := { s with crashed := true }

def set (s : State) (f : Nat) (future : SdFuture) : State :=
  { s with futures := update s.futures f (some future) }

def push (s : State) (frames : List Frame) : State := { s with stack := frames ++ s.stack }

@[simp] theorem set_owned (s : State) (f : Nat) (x : SdFuture) : (s.set f x).owned = s.owned := rfl

@[simp] theorem set_stack (s : State) (f : Nat) (x : SdFuture) : (s.set f x).stack = s.stack := rfl

@[simp] theorem push_owned (s : State) (frames : List Frame) :
    (s.push frames).owned = s.owned := rfl

/-- `sd_future_ref` -/
def sd_future_ref (s : State) (f : Nat) : State :=
  match s.futures f with
  | none => s.crash
  | some future =>
    if future.n_ref = 0 ∨ future.n_ref = UINT_MAX then s.crash
    else s.set f { future with n_ref := future.n_ref + 1 }

/-- What is noted about a future that is resolved. -/
def events (future : SdFuture) (result : Int) (by_target : Option Nat) : List Event :=
  (if future.callback then [.called] else []) ++ [.resolved result by_target future.callback]

/-- `sd_future_resolve`, up to the call of the callback. -/
def sd_future_resolve (s : State) (f : Nat) (result : Int) (by_target : Option Nat) : State :=
  match s.futures f with
  | none => s.crash
  | some future =>
    if future.resolved then { s with ret := 0 }
    else
      -- the reference of its own
      if future.n_ref = 0 ∨ future.n_ref = UINT_MAX then s.crash
      else
        { (s.set f { future with
            n_ref := future.n_ref + 1, resolved := true, result := result }).push
              ((if future.callback then [.callback f] else []) ++ [.called f result]) with
          ret := 0
          history := update s.history f
            (events future result by_target ++ s.history f) }

/-- `sd_future_free`, up to the call of `f->ops->free`, and `wait_future_free`
    up to the call of `sd_future_unref`. -/
def sd_future_free (s : State) (f : Nat) (future : SdFuture) : State :=
  if !future.resolved then s.sd_future_resolve f (-ECANCELED) none
  else
    match future.target with
    | none => s.push [.free f, .mfree f]
    | some t =>
      match s.futures t with
      | none => s.crash
      | some target =>
        (s.set t { target with waiters := target.waiters.filter (· ≠ f) }).push
          [.unref t, .mfree f]

/-- `sd_future_unref` -/
def sd_future_unref (s : State) (f : Nat) : State :=
  match s.futures f with
  | none => s.crash
  | some future =>
    if future.n_ref = 0 then s.crash
    else
      let future := { future with n_ref := future.n_ref - 1 }
      if 0 < future.n_ref then s.set f future
      else (s.set f future).sd_future_free f future

/-- `sd_future_cancel`: the function of the program, or `wait_future_cancel`. -/
def sd_future_cancel (s : State) (f : Nat) : State :=
  match s.futures f with
  | none => s.crash
  | some future =>
    if future.resolved then { s with ret := 0 }
    else
      match future.target with
      | none => s.push [.cancel f]
      | some t =>
        match s.futures t with
        | none => s.crash
        | some target =>
          (s.set t { target with
            waiters := target.waiters.filter (· ≠ f) }).sd_future_resolve f (-ECANCELED) none

/-- `sd_future_new`: the reference is the caller's. -/
def sd_future_new (s : State) (callback : Bool) (target : Option Nat) : State :=
  { s.set s.next ⟨1, false, 0, [], callback, target⟩ with next := s.next + 1 }

def own (s : State) (f : Nat) : State :=
  { s with owned := update s.owned f (s.owned f + 1) }

def disown (s : State) (f : Nat) : State :=
  { s with owned := update s.owned f (s.owned f - 1) }

/-- `sd_future_new_wait`, up to the call of `sd_future_resolve` if the target is
    resolved; `memory` is for the entry in the set of waiters. -/
def sd_future_new_wait (s : State) (t : Nat) (callback memory : Bool) : State :=
  let w := s.next
  let s := (s.sd_future_new callback (some t)).sd_future_ref t
  match s.futures t with
  | none => s.crash
  | some target =>
    if s.crashed then s
    else if target.resolved then
      (s.push [.new_wait w]).sd_future_resolve w target.result (some t)
    else if memory then
      { (s.set t { target with waiters := w :: target.waiters }).own w with ret := 0 }
    else s.push [.unref w, .give (-ENOMEM)]

/-- What goes on without the program: the functions that have not returned. The
    waiters are taken in the order the set has them in. -/
def go (s : State) (order : List Nat) : Option State :=
  match s.stack with
  | .called f result :: stack =>
    match s.futures f with
    | none => some s.crash
    | some future =>
      if order.Perm future.waiters then
        some ({ s with stack := stack }.set f { future with waiters := [] } |>.push
          [.waiters f order result (RET_GATHER 0 s.ret)])
      else none
  | .waiters f [] _ r :: stack => some { s with stack := .unref f :: .give r :: stack }
  | .waiters f (w :: ws) result r :: stack =>
    some ({ s with stack := .waited f ws result r :: stack }.sd_future_resolve w result (some f))
  | .waited f ws result r :: stack =>
    some { s with stack := .waiters f ws result (RET_GATHER r s.ret) :: stack }
  | .unref f :: stack => some ({ s with stack := stack }.sd_future_unref f)
  | .give r :: stack => some { s with ret := r, stack := stack }
  | .mfree f :: stack =>
    match s.futures f with
    | none => some s.crash
    | some _ => some { s with futures := update s.futures f none, stack := stack }
  | .new_wait w :: stack =>
    if s.ret < 0 then some { s with stack := .unref w :: .give s.ret :: stack }
    else some { { s with stack := stack }.own w with ret := 0 }
  | .callback _ :: _ | .cancel _ :: _ | .free _ :: _ | [] => none

/-- The program runs, or one of its functions. -/
def in_program (s : State) : Bool :=
  match s.stack with
  | [] | .callback _ :: _ | .cancel _ :: _ | .free _ :: _ => true
  | _ => false

/-- A future that is there for the program. -/
def live (s : State) (f : Nat) : Bool := (s.futures f).any fun future => 0 < future.n_ref

/-! ## Section 3: The system -/

end State

inductive Label where
  | create (callback : Bool)
  | set_callback (f : Nat) (callback : Bool)
  | ref (f : Nat)
  | unref (f : Nat)
  | resolve (f : Nat) (result : Int)
  | cancel (f : Nat)
  | new_wait (target : Nat) (callback memory : Bool)
  /-- A function of the program returns. -/
  | back (r : Int)
  | go (order : List Nat)
  deriving DecidableEq, Repr

namespace State

/-- The calls of the program. -/
def call (s : State) : Label → Option State
  | .create callback => some ((s.sd_future_new callback none).own s.next)
  | .set_callback f callback =>
    match s.futures f with
    | some future => if s.live f then some (s.set f { future with callback := callback }) else none
    | none => none
  | .ref f => if s.live f then some ((s.sd_future_ref f).own f) else none
  | .unref f => if 0 < s.owned f then some ((s.disown f).sd_future_unref f) else none
  | .resolve f result => if s.live f then some (s.sd_future_resolve f result none) else none
  | .cancel f => if s.live f then some (s.sd_future_cancel f) else none
  | .new_wait t callback memory =>
    if s.live t then some (s.sd_future_new_wait t callback memory) else none
  | .back r =>
    match s.stack with
    | .callback _ :: stack | .cancel _ :: stack | .free _ :: stack =>
      some { s with stack := stack, ret := r }
    | _ => none
  | .go _ => none

def step (s : State) (label : Label) : Option State :=
  if s.crashed then none
  else
    match label with
    | .go order => s.go order
    | label => if s.in_program then s.call label else none

def initial (s : State) : Prop :=
  s.next = 0 ∧ s.futures = (fun _ => none) ∧ s.owned = (fun _ => 0) ∧ s.stack = [] ∧
    s.history = (fun _ => []) ∧ s.crashed = false

def lifecycle : System State Label := System.of_step initial step

/-! ## Section 4: The condition -/

/-- The future of which a step gives a reference back. -/
def released (s : State) : Label → Option Nat
  | .unref f => some f
  | .go _ =>
    match s.stack with
    | .unref f :: _ => some f
    | _ => none
  | _ => none

/-- The future of which a step takes a reference. -/
def taken (s : State) : Label → Option Nat
  | .ref f => some f
  | .resolve f _ => if (s.futures f).any (!·.resolved) then some f else none
  | .cancel f => if (s.futures f).any fun x => !x.resolved && x.target.isSome then some f else none
  | .new_wait t _ _ => some t
  | .go _ =>
    match s.stack with
    | .waiters _ (w :: _) _ _ :: _ => if (s.futures w).any (!·.resolved) then some w else none
    | _ => none
  | _ => none

end State

/-- The waiters that are still to be visited. -/
def Frame.walks : Frame → List Nat
  | .waiters _ ws _ _ | .waited _ ws _ _ => ws
  | _ => []

namespace State

/-- **The condition**: a last reference is given back only of a future that is
    resolved and in no set of waiters that is being walked through, and none is
    taken of a future that has `UINT_MAX` of them. -/
def Clean (s : State) (label : Label) : Prop :=
  (∀ f future, s.released label = some f → s.futures f = some future → future.n_ref = 1 →
    future.resolved = true ∧ ∀ frame ∈ s.stack, f ∉ frame.walks) ∧
  ∀ f future, s.taken label = some f → s.futures f = some future → future.n_ref ≠ UINT_MAX

end State

/-! ## Section 5: The invariant -/

namespace Frame

/-- The future a function in progress has a reference of. -/
def holds (f : Nat) : Frame → Bool
  | .called g _ | .waiters g _ _ _ | .waited g _ _ _ | .unref g | .new_wait g => g = f
  | _ => false

/-- The future it frees. -/
def frees : Frame → Option Nat
  | .mfree f => some f
  | _ => none

/-- The future it resolves, with the result. -/
def resolves : Frame → Option (Nat × Int)
  | .called f result | .waiters f _ result _ | .waited f _ result _ => some (f, result)
  | _ => none

end Frame

namespace State

variable {s s' : State} {hand out : Option Nat}

def n_ref (s : State) (f : Nat) : Nat := (s.futures f).elim 0 (·.n_ref)

/-- A wait future has a reference of its target until it is freed itself. -/
def waits_for (s : State) (w t : Nat) : Bool :=
  (s.futures w).any fun future => future.target = some t && 0 < future.n_ref

/-- The number of wait futures that have a reference of this one. -/
def waiting (s : State) (t : Nat) : Nat := (List.range s.next).countP (s.waits_for · t)

/-- The future has been resolved with this result. -/
def Resolved (s : State) (f : Nat) (result : Int) : Prop :=
  ∃ by_target callback, Event.resolved result by_target callback ∈ s.history f

/-- One resolution, and one call of the callback if there is one. -/
def Noted (events : List Event) : Prop :=
  events = [] ∨ ∃ result by_target,
    events = [.resolved result by_target false] ∨ events = [.called, .resolved result by_target true]

/-- A pending wait future for `t` is going to be resolved by it: it is in the
    set of waiters, or in the part of it that is still to be visited. -/
def Settling (s : State) (w t : Nat) (target : SdFuture) : Prop :=
  (w ∈ target.waiters ∧ (target.resolved = true → ∃ result, Frame.called t result ∈ s.stack)) ∨
    ∃ frame ∈ s.stack, (∃ result, frame.resolves = some (t, result)) ∧ w ∈ frame.walks

def held (hand : Option Nat) (f : Nat) : Nat := if hand = some f then 1 else 0

/-- The invariant inside a function: it has a reference of the future `hand`
    in a variable, and deals with the wait future `out`. -/
structure Inv (s : State) (hand out : Option Nat) : Prop where
  sane : s.crashed = false
  /-- Each reference is that of the program, of a wait future or of a function
      in progress. -/
  counted : ∀ f, s.n_ref f =
    s.owned f + s.waiting f + s.stack.countP (Frame.holds f) + held hand f
  fresh : ∀ f, s.next ≤ f → s.futures f = none ∧ s.history f = []
  target : ∀ w future t, s.futures w = some future → future.target = some t → t < w
  freed : ∀ f ∈ s.stack.filterMap Frame.frees, ∃ future, s.futures f = some future ∧ future.n_ref = 0
  freed_once : (s.stack.filterMap Frame.frees).Nodup
  waiter : ∀ t future w, s.futures t = some future → w ∈ future.waiters → s.waits_for w t = true
  walked : ∀ frame ∈ s.stack, ∀ t result, frame.resolves = some (t, result) →
    (∀ w ∈ frame.walks, s.waits_for w t = true) ∧ s.Resolved t result
  noted : ∀ f, Noted (s.history f)
  pending : ∀ f future, s.futures f = some future → future.resolved = false → s.history f = []
  resolved : ∀ f future, s.futures f = some future → future.resolved = true →
    s.Resolved f future.result
  by_target : ∀ w result t callback, Event.resolved result (some t) callback ∈ s.history w →
    s.Resolved t result
  settling : ∀ w future t target, some w ≠ out → s.futures w = some future →
    future.resolved = false → future.target = some t → s.futures t = some target →
    s.Settling w t target

/-! ### Counting -/

@[simp] theorem held_none (f : Nat) : held none f = 0 := rfl

@[simp] theorem held_self (f : Nat) : held (some f) f = 1 := if_pos rfl

variable {f : Nat}

theorem held_ne {g : Nat} (h : g ≠ f) : held (some f) g = 0 :=
  if_neg fun he => h (some.inj he).symm

variable {w : Nat}

/-- One wait future less. -/
theorem countP_range_lose {n : Nat} {p q : Nat → Bool} (hw : w < n) (hsame : ∀ x, x ≠ w → q x = p x)
    (hp : p w = true) (hq : q w = false) :
    (List.range n).countP p = (List.range n).countP q + 1 := by
  induction n with
  | zero => omega
  | succ n ih =>
    rw [range_succ, countP_append]
    by_cases hn : w = n
    · subst hn
      have hlow : (range w).countP q = (range w).countP p := by
        refine countP_congr fun x hx => ?_
        rw [hsame x (by have := mem_range.mp hx; omega)]
      simp [hp, hq, hlow]
    · have hn' : q n = p n := hsame n (Ne.symm hn)
      rw [ih (by omega)]
      cases hpn : p n with
      | true => simp [hpn, hn']
      | false => simp [hpn, hn']

variable {t : Nat}

theorem waits_for_lt (h : s.Inv hand out) (hw : s.waits_for w t = true) : w < s.next := by
  by_contra hge
  rw [waits_for, (h.fresh w (by omega)).1] at hw
  cases hw

/-- A future that somebody has a reference of is there. -/
theorem Inv.alive (h : s.Inv hand out)
    (hpos : 0 < s.owned f + s.waiting f + s.stack.countP (Frame.holds f) + held hand f) :
    ∃ future, s.futures f = some future ∧ 0 < future.n_ref := by
  rw [← h.counted f] at hpos
  unfold n_ref at hpos
  cases hf : s.futures f with
  | none =>
    rw [hf] at hpos
    exact absurd hpos (Nat.lt_irrefl 0)
  | some future =>
    rw [hf] at hpos
    exact ⟨future, rfl, hpos⟩

theorem Inv.alive_of_held (h : s.Inv (some f) out) :
    ∃ future, s.futures f = some future ∧ 0 < future.n_ref :=
  h.alive (by rw [held_self]; omega)

theorem Inv.alive_of_waits (h : s.Inv hand out) (hw : s.waits_for w t = true) :
    ∃ future, s.futures t = some future ∧ 0 < future.n_ref := by
  have hpos : 0 < s.waiting t :=
    countP_pos_iff.mpr ⟨w, mem_range.mpr (waits_for_lt h hw), hw⟩
  exact h.alive (by omega)

theorem Inv.alive_of_frame (h : s.Inv hand out) {frame : Frame} (hmem : frame ∈ s.stack)
    (hf : frame.holds f = true) : ∃ future, s.futures f = some future ∧ 0 < future.n_ref := by
  have hpos : 0 < s.stack.countP (Frame.holds f) := countP_pos_iff.mpr ⟨frame, hmem, hf⟩
  exact h.alive (by omega)

theorem live_iff : s.live f = true ↔ ∃ future, s.futures f = some future ∧ 0 < future.n_ref := by
  unfold live
  cases s.futures f with
  | none => simp
  | some future => simp

/-! ### Changing one future -/

section set
variable {f : Nat} {old new : SdFuture}

/-- What a change of one future that keeps its target, and whether there are
    references, does to the wait futures: nothing. -/
theorem waits_for_set (hf : s.futures f = some old) (htarget : new.target = old.target)
    (hpos : 0 < new.n_ref ↔ 0 < old.n_ref) (w t : Nat) :
    (s.set f new).waits_for w t = s.waits_for w t := by
  unfold waits_for set
  by_cases hw : w = f
  · subst hw
    simp [hf, htarget, hpos]
  · simp [update_of_ne hw]

theorem n_ref_set (g : Nat) : (s.set f new).n_ref g = if g = f then new.n_ref else s.n_ref g := by
  unfold n_ref set
  by_cases hg : g = f
  · subst hg
    simp
  · simp [hg]

theorem set_cases {g : Nat} {future : SdFuture} (h : (s.set f new).futures g = some future) :
    (g = f ∧ new = future) ∨ g ≠ f ∧ s.futures g = some future := by
  by_cases hg : g = f
  · subst hg
    have hself : (s.set g new).futures g = some new := update_self _ _ _
    exact .inl ⟨rfl, some.inj (hself.symm.trans h)⟩
  · exact .inr ⟨hg, (update_of_ne hg _ _).symm.trans h⟩

/-- **Changing a future**: its references in step with those in hand, and its
    waiters; one that is no waiter any more is dealt with or still to be
    visited. -/
theorem Inv.set (h : s.Inv hand out) (hf : s.futures f = some old) {hand' out' : Option Nat}
    (htarget : new.target = old.target) (hpos : 0 < new.n_ref ↔ 0 < old.n_ref)
    (hresolved : new.resolved = old.resolved) (hresult : new.result = old.result)
    (hcount : ∀ g, (if g = f then new.n_ref else s.n_ref g) + held hand g =
      s.n_ref g + held hand' g) (hnew : ∀ w ∈ new.waiters, w ∈ old.waiters ∨ s.waits_for w f = true)
    (hold : ∀ w ∈ old.waiters, w ∈ new.waiters ∨ some w = out' ∨
      (∃ frame ∈ s.stack, (∃ result, frame.resolves = some (f, result)) ∧ w ∈ frame.walks) ∨
      ∃ future, s.futures w = some future ∧ future.resolved = true)
    (hout : out = none ∨ out = out') : (s.set f new).Inv hand' out' := by
  have hwaits := fun w t => waits_for_set (s := s) hf htarget hpos w t
  have hother : ∀ g, g ≠ f → (s.set f new).futures g = s.futures g :=
    fun g hg => update_of_ne hg _ _
  have hself : (s.set f new).futures f = some new := update_self _ _ _
  refine ⟨h.sane, fun g => ?_, fun g hg => ?_, fun w future t hw ht => ?_, fun g hg => ?_,
    h.freed_once, fun t future w ht hw => ?_, fun frame hframe t result hr => ?_, h.noted,
    fun g future hg hp => ?_, fun g future hg hr => ?_, h.by_target,
    fun w future t target hwo hw hp ht htf => ?_⟩
  · have hwaiting : (s.set f new).waiting g = s.waiting g :=
      countP_congr fun w _ => by rw [hwaits]
    have hc := hcount g
    have hg := h.counted g
    rw [n_ref_set, hwaiting]
    show _ = s.owned g + s.waiting g + s.stack.countP (Frame.holds g) + held hand' g
    omega
  · have hgf : g ≠ f := by
      rintro rfl
      rw [(h.fresh g hg).1] at hf
      cases hf
    rw [hother g hgf]
    exact h.fresh g hg
  · rcases set_cases hw with ⟨rfl, rfl⟩ | ⟨-, hw⟩
    · exact h.target w old t hf (htarget ▸ ht)
    · exact h.target w future t hw ht
  · obtain ⟨future, hfut, hz⟩ := h.freed g hg
    by_cases hgf : g = f
    · subst hgf
      rw [hf] at hfut
      cases hfut
      exact ⟨new, hself, by omega⟩
    · exact ⟨future, (hother g hgf).trans hfut, hz⟩
  · rw [hwaits]
    rcases set_cases ht with ⟨rfl, rfl⟩ | ⟨-, ht⟩
    · rcases hnew w hw with hw' | hw'
      · exact h.waiter t old w hf hw'
      · exact hw'
    · exact h.waiter t future w ht hw
  · obtain ⟨hws, hres⟩ := h.walked frame hframe t result hr
    exact ⟨fun w hw => (hwaits w t).trans (hws w hw), hres⟩
  · rcases set_cases hg with ⟨rfl, rfl⟩ | ⟨-, hg⟩
    · exact h.pending g old hf (hresolved ▸ hp)
    · exact h.pending g future hg hp
  · rcases set_cases hg with ⟨rfl, rfl⟩ | ⟨-, hg⟩
    · rw [hresult]
      exact h.resolved g old hf (hresolved ▸ hr)
    · exact h.resolved g future hg hr
  · -- the pending wait future, before the change
    have hbefore : ∃ before, s.futures w = some before ∧ before.resolved = false ∧
        before.target = some t := by
      rcases set_cases hw with ⟨rfl, rfl⟩ | ⟨-, hw⟩
      · exact ⟨old, hf, hresolved ▸ hp, htarget ▸ ht⟩
      · exact ⟨future, hw, hp, ht⟩
    obtain ⟨before, hwb, hpb, htb⟩ := hbefore
    have hwo' : some w ≠ out := by
      rcases hout with ho | ho
      · rw [ho]
        exact some_ne_none w
      · rwa [ho]
    rcases set_cases htf with ⟨rfl, rfl⟩ | ⟨htf', htf⟩
    · rcases h.settling w before t old hwo' hwb hpb htb hf with ⟨hmem, hcalled⟩ | hwalk
      · rcases hold w hmem with hmem' | hmem' | hwalk | ⟨fut, hfut, hres⟩
        · exact .inl ⟨hmem', fun hr => hcalled (hresolved ▸ hr)⟩
        · exact absurd hmem' hwo
        · exact .inr hwalk
        · rw [hwb] at hfut
          cases hfut
          rw [hpb] at hres
          cases hres
      · exact .inr hwalk
    · exact h.settling w before t target hwo' hwb hpb htb htf

end set

/-! ### Changing what is in progress -/

/-- **Changing the stack**, and what the program has: the references in step
    with those in hand, and no wait future is lost that is to be resolved. -/
theorem Inv.stack (h : s.Inv hand out) {hand' out' : Option Nat} {stack : List Frame}
    {owned : Nat → Nat} (r : Int)
    (hcount : ∀ g, s.owned g + s.stack.countP (Frame.holds g) + held hand g =
      owned g + stack.countP (Frame.holds g) + held hand' g)
    (hfrees : stack.filterMap Frame.frees = s.stack.filterMap Frame.frees)
    (hwalked : ∀ frame ∈ stack, frame ∈ s.stack ∨
      ∀ t result, frame.resolves = some (t, result) →
        (∀ w ∈ frame.walks, s.waits_for w t = true) ∧ s.Resolved t result)
    (hsettling : ∀ w future t target, some w ≠ out' → s.futures w = some future →
      future.resolved = false → future.target = some t → s.futures t = some target →
      some w ≠ out ∧ (s.Settling w t target →
        ({ s with stack := stack, owned := owned, ret := r } : State).Settling w t target)) :
    ({ s with stack := stack, owned := owned, ret := r } : State).Inv hand' out' := by
  refine ⟨h.sane, fun g => ?_, h.fresh, h.target, fun g hg => ?_, ?_, h.waiter,
    fun frame hframe t result hr => ?_, h.noted, h.pending, h.resolved, h.by_target,
    fun w future t target hwo hw hp ht htf => ?_⟩
  · have hc := hcount g
    have hg : s.n_ref g = _ := h.counted g
    show s.n_ref g = owned g + s.waiting g + stack.countP (Frame.holds g) + held hand' g
    omega
  · exact h.freed g (hfrees ▸ hg)
  · show (stack.filterMap Frame.frees).Nodup
    rw [hfrees]
    exact h.freed_once
  · rcases hwalked frame hframe with hold | hnew
    · exact h.walked frame hold t result hr
    · exact hnew t result hr
  · obtain ⟨hwo', hkeep⟩ := hsettling w future t target hwo hw hp ht htf
    exact hkeep (h.settling w future t target hwo' hw hp ht htf)

/-- Functions that resolve nothing are put on the stack or taken from it. -/
theorem Inv.frames (h : s.Inv hand out) (hand' : Option Nat) (old new : List Frame)
    (owned : Nat → Nat) {stack : List Frame} (r : Int) (hs : s.stack = old ++ stack)
    (hcount : ∀ g, s.owned g + old.countP (Frame.holds g) + held hand g =
      owned g + new.countP (Frame.holds g) + held hand' g)
    (hfrees : new.filterMap Frame.frees = old.filterMap Frame.frees)
    (hnew : ∀ frame ∈ new, frame.resolves = none)
    (hold : ∀ frame ∈ old, frame.resolves = none ∨ ((∀ f result, frame ≠ .called f result) ∧
      frame.walks = [])) :
    ({ s with stack := new ++ stack, owned := owned, ret := r } : State).Inv hand' out := by
  refine h.stack r (fun g => ?_) ?_ (fun frame hframe => ?_) fun w future t target hwo _ _ _ _ =>
    ⟨hwo, fun hset => ?_⟩
  · have hc := hcount g
    rw [hs, countP_append, countP_append]
    omega
  · rw [hs, filterMap_append, filterMap_append, hfrees]
  · rcases mem_append.mp hframe with hmem | hmem
    · refine .inr fun t result hr => ?_
      rw [hnew frame hmem] at hr
      cases hr
    · exact .inl (hs ▸ mem_append_right _ hmem)
  · -- what settles the wait future is below
    rcases hset with ⟨hmem, hcalled⟩ | ⟨frame, hframe, ⟨result, hr⟩, hmem⟩
    · refine .inl ⟨hmem, fun hres => ?_⟩
      obtain ⟨result, hin⟩ := hcalled hres
      rw [hs] at hin
      rcases mem_append.mp hin with hin | hin
      · rcases hold _ hin with hr | ⟨hne, -⟩
        · cases hr
        · exact absurd rfl (hne t result)
      · exact ⟨result, mem_append_right _ hin⟩
    · rw [hs] at hframe
      rcases mem_append.mp hframe with hin | hin
      · rcases hold _ hin with hr' | ⟨-, hw⟩
        · rw [hr] at hr'
          cases hr'
        · rw [hw] at hmem
          cases hmem
      · exact .inr ⟨frame, mem_append_right _ hin, ⟨result, hr⟩, hmem⟩

/-- The wait future that was dealt with is settled. -/
theorem Inv.settle (h : s.Inv hand (some w))
    (hw : ∀ future t target, s.futures w = some future → future.resolved = false → future.target = some t → s.futures t = some target → s.Settling w t target) :
    s.Inv hand none := by
  refine ⟨h.sane, h.counted, h.fresh, h.target, h.freed, h.freed_once, h.waiter, h.walked, h.noted,
    h.pending, h.resolved, h.by_target, fun v future t target _ hv hp ht htf => ?_⟩
  by_cases hvw : v = w
  · subst hvw
    exact hw future t target hv hp ht htf
  · exact h.settling v future t target (fun he => hvw (some.inj he)) hv hp ht htf

/-! ## Section 6: What the functions preserve -/

variable {future : SdFuture} {result : Int}

variable {by_target : Option Nat}

theorem mem_events {r : Int} {by_target' : Option Nat} {callback : Bool} :
    Event.resolved r by_target' callback ∈ events future result by_target ↔
      r = result ∧ by_target' = by_target ∧ callback = future.callback := by
  unfold events
  cases future.callback with
  | true => simp
  | false => simp

/-- **Resolving a future**: it has not been resolved before, or nothing
    happens. -/
theorem Inv.sd_future_resolve (h : s.Inv none out) (hf : s.futures f = some future)
    (hpos : 0 < future.n_ref) (hmax : future.resolved = false → future.n_ref ≠ UINT_MAX)
    (hby : ∀ t, by_target = some t → s.Resolved t result) (hout : out = none ∨ out = some f) :
    (s.sd_future_resolve f result by_target).Inv none none := by
  -- once this future is resolved, no wait future is out
  have hgone : ∀ w, w ≠ f → some w ≠ out := by
    intro w hwf
    rcases hout with ho | ho
    · rw [ho]
      exact some_ne_none w
    · rw [ho]
      exact fun he => hwf (some.inj he)
  unfold State.sd_future_resolve
  rw [hf]
  dsimp only
  cases hres : future.resolved with
  | true =>
    have h' : s.Inv none none := by
      rcases hout with ho | ho
      · exact ho ▸ h
      · rw [ho] at h
        refine h.settle fun fut t target hw hp => ?_
        rw [hf] at hw
        cases hw
        rw [hres] at hp
        cases hp
    exact ⟨h'.sane, h'.counted, h'.fresh, h'.target, h'.freed, h'.freed_once, h'.waiter, h'.walked,
      h'.noted, h'.pending, h'.resolved, h'.by_target, h'.settling⟩
  | false =>
    have hmax' := hmax hres
    rw [if_neg (by simp), if_neg (by omega)]
    have hold := h.pending f future hf hres
    generalize hnew : ({ future with
      n_ref := future.n_ref + 1, resolved := true, result := result } : SdFuture) = new
    have hwaits : ∀ w t, (s.set f new).waits_for w t = s.waits_for w t := by
      intro w t
      refine waits_for_set hf ?_ ?_ w t
      · rw [← hnew]
      · rw [← hnew]
        exact ⟨fun _ => hpos, fun _ => succ_pos _⟩
    generalize hframes : ((if future.callback then [Frame.callback f] else []) ++
      [Frame.called f result]) = frames
    have hholds : ∀ g, frames.countP (Frame.holds g) = if g = f then 1 else 0 := by
      intro g
      rw [← hframes]
      by_cases hg : g = f
      · subst hg
        cases future.callback with
        | true => simp [Frame.holds]
        | false => simp [Frame.holds]
      · have hg' : ¬ f = g := fun he => hg he.symm
        cases future.callback with
        | true => simp [Frame.holds, hg, hg']
        | false => simp [Frame.holds, hg, hg']
    have hfrees : frames.filterMap Frame.frees = [] := by
      rw [← hframes]
      cases future.callback with
      | true => rfl
      | false => rfl
    have hcalled : Frame.called f result ∈ frames := by
      rw [← hframes]
      exact mem_append_right _ (.head _)
    have hmem : ∀ frame ∈ frames, frame = .called f result ∨ frame.resolves = none := by
      intro frame hframe
      rw [← hframes] at hframe
      rcases mem_append.mp hframe with hin | hin
      · right
        cases hcb : future.callback with
        | true =>
          rw [hcb] at hin
          obtain rfl := mem_singleton.mp hin
          rfl
        | false =>
          rw [hcb] at hin
          cases hin
      · exact .inl (mem_singleton.mp hin)
    have hother : ∀ g, g ≠ f → (s.set f new).futures g = s.futures g :=
      fun g hg => update_of_ne hg _ _
    have hself : (s.set f new).futures f = some new := update_self _ _ _
    -- what has been resolved before is still so, and this future is
    have hresolved : ∀ g r, s.Resolved g r →
        ∃ b c, Event.resolved r b c ∈ update s.history f
          (events future result by_target ++ s.history f) g := by
      rintro g r ⟨b, c, hin⟩
      have hgf : g ≠ f := by
        rintro rfl
        rw [hold] at hin
        cases hin
      exact ⟨b, c, by rw [update_of_ne hgf]; exact hin⟩
    have hthis : ∃ b c, Event.resolved result b c ∈ update s.history f
        (events future result by_target ++ s.history f) f := by
      refine ⟨by_target, future.callback, ?_⟩
      rw [update_self]
      exact mem_append_left _ (mem_events.mpr ⟨rfl, rfl, rfl⟩)
    refine ⟨h.sane, fun g => ?_, fun g hg => ?_, fun w fut t hw ht => ?_, fun g hg => ?_, ?_,
      fun t fut w ht hw => ?_, fun frame hframe t r hr => ?_, fun g => ?_, fun g fut hg hp => ?_,
      fun g fut hg hr => ?_, fun w r t c hin => ?_, fun w fut t target _ hw hp ht htf => ?_⟩
    · have hwaiting : (s.set f new).waiting g = s.waiting g :=
        countP_congr fun w _ => by rw [hwaits]
      show (s.set f new).n_ref g = s.owned g + (s.set f new).waiting g +
        (frames ++ s.stack).countP (Frame.holds g) + held none g
      rw [n_ref_set, hwaiting, countP_append, hholds]
      have hg := h.counted g
      by_cases hgf : g = f
      · subst hgf
        rw [if_pos rfl, if_pos rfl, ← hnew]
        simp only [n_ref, hf, elim_some] at hg
        show future.n_ref + 1 = _
        omega
      · rw [if_neg hgf, if_neg hgf]
        omega
    · have hgf : g ≠ f := by
        rintro rfl
        rw [(h.fresh g hg).1] at hf
        cases hf
      refine ⟨(hother g hgf).trans (h.fresh g hg).1, ?_⟩
      show update s.history f _ g = []
      rw [update_of_ne hgf]
      exact (h.fresh g hg).2
    · rcases set_cases hw with ⟨rfl, rfl⟩ | ⟨-, hw⟩
      · rw [← hnew] at ht
        exact h.target w future t hf ht
      · exact h.target w fut t hw ht
    · have hg' : g ∈ s.stack.filterMap Frame.frees := by
        have := show g ∈ (frames ++ s.stack).filterMap Frame.frees from hg
        rwa [filterMap_append, hfrees] at this
      obtain ⟨fut, hfut, hz⟩ := h.freed g hg'
      have hgf : g ≠ f := by
        rintro rfl
        rw [hf] at hfut
        cases hfut
        omega
      exact ⟨fut, (hother g hgf).trans hfut, hz⟩
    · show ((frames ++ s.stack).filterMap Frame.frees).Nodup
      rw [filterMap_append, hfrees]
      exact h.freed_once
    · refine (hwaits w t).trans ?_
      rcases set_cases ht with ⟨rfl, rfl⟩ | ⟨-, ht⟩
      · rw [← hnew] at hw
        exact h.waiter t future w hf hw
      · exact h.waiter t fut w ht hw
    · rcases mem_append.mp (show frame ∈ frames ++ s.stack from hframe) with hin | hin
      · rcases hmem frame hin with rfl | hnone
        · obtain ⟨rfl, rfl⟩ := Prod.mk.inj (some.inj hr)
          exact ⟨fun w hw => absurd hw not_mem_nil, hthis⟩
        · rw [hnone] at hr
          cases hr
      · obtain ⟨hws, hrt⟩ := h.walked frame hin t r hr
        exact ⟨fun w hw => (hwaits w t).trans (hws w hw), hresolved t r hrt⟩
    · show Noted (update s.history f _ g)
      by_cases hgf : g = f
      · subst hgf
        rw [update_self, hold]
        refine .inr ⟨result, by_target, ?_⟩
        unfold events
        cases future.callback with
        | true => exact .inr rfl
        | false => exact .inl rfl
      · rw [update_of_ne hgf]
        exact h.noted g
    · have hgf : g ≠ f := by
        rintro rfl
        obtain rfl : new = fut := some.inj (hself.symm.trans hg)
        rw [← hnew] at hp
        cases hp
      show update s.history f _ g = []
      rw [update_of_ne hgf]
      exact h.pending g fut ((hother g hgf).symm.trans hg) hp
    · rcases set_cases hg with ⟨rfl, rfl⟩ | ⟨-, hg⟩
      · rw [← hnew]
        exact hthis
      · exact hresolved g fut.result (h.resolved g fut hg hr)
    · have hin' : Event.resolved r (some t) c ∈ update s.history f _ w := hin
      by_cases hwf : w = f
      · subst hwf
        rw [update_self, hold, append_nil] at hin'
        obtain ⟨rfl, hb, -⟩ := mem_events.mp hin'
        exact hresolved t r (hby t hb.symm)
      · rw [update_of_ne hwf] at hin'
        exact hresolved t r (h.by_target w r t c hin')
    · have hwf : w ≠ f := by
        rintro rfl
        obtain rfl : new = fut := some.inj (hself.symm.trans hw)
        rw [← hnew] at hp
        cases hp
      have hw' : s.futures w = some fut := (hother w hwf).symm.trans hw
      by_cases htf' : t = f
      · -- the waiters of this future: the function goes on with them
        subst htf'
        obtain rfl : new = target := some.inj (hself.symm.trans htf)
        rcases h.settling w fut t future (hgone w hwf) hw' hp ht hf with ⟨hin, -⟩ | ⟨fr, hin, hwk⟩
        · refine .inl ⟨?_, fun _ => ⟨result, mem_append_left _ hcalled⟩⟩
          rw [← hnew]
          exact hin
        · exact .inr ⟨fr, mem_append_right _ hin, hwk⟩
      · have ht' : s.futures t = some target := (hother t htf').symm.trans htf
        rcases h.settling w fut t target (hgone w hwf) hw' hp ht ht' with
          ⟨hin, hc⟩ | ⟨fr, hin, hwk⟩
        · refine .inl ⟨hin, fun hr => ?_⟩
          obtain ⟨r, hr⟩ := hc hr
          exact ⟨r, mem_append_right _ hr⟩
        · exact .inr ⟨fr, mem_append_right _ hin, hwk⟩

/-- A reference in hand becomes one of the program's, and back. -/
theorem Inv.own (h : s.Inv (some f) out) : (s.own f).Inv none out := by
  refine h.frames none [] [] _ s.ret (nil_append _).symm (fun g => ?_) rfl
     (fun _ hm => absurd hm not_mem_nil) fun _ hm => absurd hm not_mem_nil
  by_cases hg : g = f
  · subst hg
    simp
  · simp [held_ne hg, update_of_ne hg]

theorem Inv.disown (h : s.Inv none out) (hf : 0 < s.owned f) : (s.disown f).Inv (some f) out := by
  refine h.frames (some f) [] [] _ s.ret (nil_append _).symm (fun g => ?_) rfl
    (fun _ hm => absurd hm not_mem_nil) fun _ hm =>
      absurd hm not_mem_nil
  by_cases hg : g = f
  · subst hg
    simp
    omega
  · simp [held_ne hg, update_of_ne hg]

/-- `sd_future_ref` -/
theorem Inv.sd_future_ref (h : s.Inv none out) (hf : s.futures f = some future)
    (hpos : 0 < future.n_ref) (hmax : future.n_ref ≠ UINT_MAX) :
    s.sd_future_ref f = s.set f { future with n_ref := future.n_ref + 1 } ∧
      (s.sd_future_ref f).Inv (some f) out := by
  have he : s.sd_future_ref f = s.set f { future with n_ref := future.n_ref + 1 } := by
    rw [State.sd_future_ref, hf]
    dsimp only
    rw [if_neg (by omega)]
  refine ⟨he, ?_⟩
  rw [he]
  refine h.set hf rfl ⟨fun _ => hpos, fun _ => succ_pos _⟩ rfl rfl (fun g => ?_)
    (fun w hw => .inl hw) (fun w hw => .inl hw) (.inr rfl)
  by_cases hg : g = f
  · subst hg
    simp [n_ref, hf]
  · simp [hg, held_ne hg]

/-- The set of waiters of the target, without this future. -/
theorem Inv.remove_waiter (h : s.Inv hand out) {target : SdFuture} (ht : s.futures t = some target)
    (out' : Option Nat)
    (hout : some f = out' ∨ ∃ future, s.futures f = some future ∧ future.resolved = true)
    (hout' : out = none ∨ out = out') :
    (s.set t { target with waiters := target.waiters.filter (· ≠ f) }).Inv hand out' := by
  refine h.set ht rfl Iff.rfl rfl rfl (fun g => ?_) (fun w hw => .inl (mem_filter.mp hw).1)
    (fun w hw => ?_) hout'
  · by_cases hg : g = t
    · subst hg
      simp [n_ref, ht]
    · simp [hg]
  · by_cases hwf : w = f
    · subst hwf
      rcases hout with ho | ho
      · exact .inr (.inl ho)
      · exact .inr (.inr (.inr ho))
    · exact .inl (mem_filter.mpr ⟨hw, by simpa using hwf⟩)

/-- **The last reference**: the future is left without one, to be freed, and
    the reference a wait future has of its target is in hand. -/
theorem Inv.last_unref (h : s.Inv (some f) none) (hf : s.futures f = some future)
    (hone : future.n_ref = 1) (hres : future.resolved = true)
    (hwaiters : ∀ t target, s.futures t = some target → f ∉ target.waiters)
    (hwalks : ∀ frame ∈ s.stack, f ∉ frame.walks) :
    ((s.set f { future with n_ref := 0 }).push [.mfree f]).Inv future.target none := by
  generalize hnew : ({ future with n_ref := 0 } : SdFuture) = new
  have hother : ∀ g, g ≠ f → (s.set f new).futures g = s.futures g :=
    fun g hg => update_of_ne hg _ _
  have hself : (s.set f new).futures f = some new := update_self _ _ _
  have hlt : f < s.next := by
    by_contra hge
    rw [(h.fresh f (by omega)).1] at hf
    cases hf
  -- the wait futures: the same ones, but for this one
  have hwaits : ∀ w t, w ≠ f → (s.set f new).waits_for w t = s.waits_for w t := by
    intro w t hw
    unfold waits_for
    rw [hother w hw]
  have hgone : ∀ t, (s.set f new).waits_for f t = false := by
    unfold waits_for
    rw [hself, ← hnew]
    simp
  have hwaiting : ∀ t, (s.set f new).waiting t + held future.target t = s.waiting t := by
    intro t
    by_cases ht : future.target = some t
    · rw [ht, held_self]
      refine (countP_range_lose hlt (fun x hx => hwaits x t hx) ?_ (hgone t)).symm
      simp [waits_for, hf, ht, hone]
    · have hsame : ∀ w, (s.set f new).waits_for w t = s.waits_for w t := by
        intro w
        by_cases hw : w = f
        · subst hw
          rw [hgone]
          simp [waits_for, hf, ht]
        · exact hwaits w t hw
      rw [held, if_neg ht]
      exact countP_congr fun w _ => by rw [hsame]
  refine ⟨h.sane, fun g => ?_, fun g hg => ?_, fun w fut t hw ht => ?_, fun g hg => ?_, ?_,
    fun t fut w ht hw => ?_, fun frame hframe t r hr => ?_, h.noted, fun g fut hg hp => ?_,
    fun g fut hg hr => ?_, h.by_target, fun w fut t target hwo hw hp ht htf => ?_⟩
  · have hc := h.counted g
    have hw := hwaiting g
    show (s.set f new).n_ref g = s.owned g + (s.set f new).waiting g +
      (Frame.mfree f :: s.stack).countP (Frame.holds g) + held future.target g
    rw [n_ref_set, countP_cons_of_neg (by simp [Frame.holds])]
    by_cases hg : g = f
    · subst hg
      have hzero : new.n_ref = 0 := by rw [← hnew]
      rw [if_pos rfl]
      simp only [n_ref, hf, elim_some, held_self] at hc
      omega
    · rw [if_neg hg]
      rw [held_ne hg] at hc
      omega
  · have hgf : g ≠ f := by
      have : s.next ≤ g := hg
      omega
    exact ⟨(hother g hgf).trans (h.fresh g hg).1, (h.fresh g hg).2⟩
  · rcases set_cases hw with ⟨rfl, rfl⟩ | ⟨-, hw⟩
    · rw [← hnew] at ht
      exact h.target w future t hf ht
    · exact h.target w fut t hw ht
  · have hg' : g = f ∨ g ∈ s.stack.filterMap Frame.frees := by
      have hin : g ∈ (Frame.mfree f :: s.stack).filterMap Frame.frees := hg
      simpa [Frame.frees] using hin
    rcases hg' with rfl | hin
    · exact ⟨new, hself, by rw [← hnew]⟩
    · obtain ⟨fut, hfut, hz⟩ := h.freed g hin
      have hgf : g ≠ f := by
        rintro rfl
        rw [hf] at hfut
        cases hfut
        omega
      exact ⟨fut, (hother g hgf).trans hfut, hz⟩
  · show ((Frame.mfree f :: s.stack).filterMap Frame.frees).Nodup
    have hnot : f ∉ s.stack.filterMap Frame.frees := by
      intro hin
      obtain ⟨fut, hfut, hz⟩ := h.freed f hin
      rw [hf] at hfut
      cases hfut
      omega
    exact nodup_cons.mpr ⟨hnot, h.freed_once⟩
  · have hold : ∃ fut', s.futures t = some fut' ∧ w ∈ fut'.waiters := by
      rcases set_cases ht with ⟨rfl, rfl⟩ | ⟨-, ht⟩
      · rw [← hnew] at hw
        exact ⟨future, hf, hw⟩
      · exact ⟨fut, ht, hw⟩
    obtain ⟨fut', hfut', hw'⟩ := hold
    have hwf : w ≠ f := by
      rintro rfl
      exact hwaiters t fut' hfut' hw'
    exact (hwaits w t hwf).trans (h.waiter t fut' w hfut' hw')
  · rcases mem_cons.mp (show frame ∈ Frame.mfree f :: s.stack from hframe) with rfl | hin
    · cases hr
    · obtain ⟨hws, hrt⟩ := h.walked frame hin t r hr
      refine ⟨fun w hw => ?_, hrt⟩
      have hwf : w ≠ f := by
        rintro rfl
        exact hwalks frame hin hw
      exact (hwaits w t hwf).trans (hws w hw)
  · rcases set_cases hg with ⟨rfl, rfl⟩ | ⟨hgf, hg⟩
    · rw [← hnew, hres] at hp
      cases hp
    · exact h.pending g fut hg hp
  · rcases set_cases hg with ⟨rfl, rfl⟩ | ⟨-, hg⟩
    · rw [← hnew]
      exact h.resolved g future hf hres
    · exact h.resolved g fut hg hr
  · have hwf : w ≠ f := by
      rintro rfl
      obtain rfl : new = fut := some.inj (hself.symm.trans hw)
      rw [← hnew, hres] at hp
      cases hp
    have hw' : s.futures w = some fut := (hother w hwf).symm.trans hw
    have hold : ∃ target', s.futures t = some target' ∧ target'.waiters = target.waiters ∧
        target'.resolved = target.resolved := by
      rcases set_cases htf with ⟨rfl, rfl⟩ | ⟨htf', htf⟩
      · exact ⟨future, hf, by rw [← hnew], by rw [← hnew]⟩
      · exact ⟨target, htf, rfl, rfl⟩
    obtain ⟨target', htf', hws, hrs⟩ := hold
    rcases h.settling w fut t target' hwo hw' hp ht htf' with ⟨hin, hc⟩ | ⟨fr, hin, hwk⟩
    · refine .inl ⟨hws ▸ hin, fun hr => ?_⟩
      obtain ⟨r, hr⟩ := hc (hrs.trans hr)
      exact ⟨r, mem_cons_of_mem _ hr⟩
    · exact .inr ⟨fr, mem_cons_of_mem _ hin, hwk⟩

/-- **Giving a reference back**, under the condition. -/
theorem Inv.sd_future_unref (h : s.Inv (some f) none)
    (hclean : ∀ future, s.futures f = some future → future.n_ref = 1 → future.resolved = true ∧ ∀ frame ∈ s.stack, f ∉ frame.walks) :
    (s.sd_future_unref f).Inv none none := by
  obtain ⟨future, hf, hpos⟩ := h.alive_of_held
  unfold State.sd_future_unref
  rw [hf]
  dsimp only
  rw [if_neg (by omega)]
  by_cases hone : future.n_ref = 1
  · obtain ⟨hres, hwalks⟩ := hclean future hf hone
    rw [if_neg (by omega)]
    unfold State.sd_future_free
    rw [if_neg (by simp [hres])]
    have hnozero : future.n_ref - 1 = 0 := by omega
    cases ht : future.target with
    | none =>
      -- a future of the program is in nobody's set of waiters
      have hin : ∀ t target, s.futures t = some target → f ∉ target.waiters := by
        intro t target htf hin
        have hw := h.waiter t target f htf hin
        rw [waits_for, hf, any_some, ht] at hw
        cases hw
      have hzero := h.last_unref hf hone hres hin hwalks
      rw [ht] at hzero
      rw [hnozero]
      exact hzero.frames none [.mfree f] [.free f, .mfree f] _ s.ret rfl (fun g => by simp [Frame.holds]) rfl (by simp [Frame.resolves]) (by simp [Frame.resolves])
    | some t =>
      have htf : t ≠ f := Nat.ne_of_lt (h.target f future t hf ht)
      have hwaits : s.waits_for f t = true := by simp [waits_for, hf, ht, hone]
      obtain ⟨target, htarget, -⟩ := h.alive_of_waits hwaits
      have hget : ∀ x, (s.set f x).futures t = some target :=
        fun x => (update_of_ne htf _ _).trans htarget
      dsimp only
      rw [hget]
      -- out of the set of waiters first, which comes to the same
      have hremoved := h.remove_waiter htarget none (.inr ⟨future, hf, hres⟩)
        (.inl rfl)
      have hf' : (s.set t { target with
          waiters := target.waiters.filter (· ≠ f) }).futures f = some future :=
        (update_of_ne (Ne.symm htf) _ _).trans hf
      have hin : ∀ u fut, (s.set t { target with
          waiters := target.waiters.filter (· ≠ f) }).futures u = some fut → f ∉ fut.waiters := by
        intro u fut hu hin
        by_cases hut : u = t
        · subst hut
          have hself : (s.set u { target with
              waiters := target.waiters.filter (· ≠ f) }).futures u = some _ :=
            update_self _ _ _
          rw [hself] at hu
          rw [← some.inj hu] at hin
          simpa using (mem_filter.mp hin).2
        · have hu' : s.futures u = some fut := (update_of_ne hut _ _).symm.trans hu
          have hw := h.waiter u fut f hu' hin
          rw [waits_for, hf, any_some, ht] at hw
          simp only [some.injEq, Bool.and_eq_true, decide_eq_true_eq] at hw
          exact hut hw.1.symm
      have hzero := hremoved.last_unref hf' hone hres hin hwalks
      rw [ht] at hzero
      have hlast := hzero.frames none [.mfree f] [.unref t, .mfree f] s.owned s.ret rfl (fun g => by
          by_cases hg : g = t
          · subst hg
            simp [Frame.holds]
          · have hg' : ¬ t = g := fun he => hg he.symm
            simp [Frame.holds, held_ne hg, hg'])
        rfl (by simp [Frame.resolves]) (by simp [Frame.resolves])
      rw [hnozero]
      unfold State.set State.push at hlast ⊢
      dsimp only at hlast ⊢
      rw [update_comm (Ne.symm htf)]
      exact hlast
  · rw [if_pos (by omega)]
    refine h.set hf rfl ⟨fun _ => hpos, fun _ => ?_⟩ rfl rfl (fun g => ?_)
      (fun w hw => .inl hw) (fun w hw => .inl hw) (.inl rfl)
    · show 0 < future.n_ref - 1
      omega
    · by_cases hg : g = f
      · subst hg
        simp [n_ref, hf]
        omega
      · simp [hg, held_ne hg]

/-- `mfree`: nobody has a reference. -/
theorem Inv.mfree (h : s.Inv none none) {stack : List Frame} (hs : s.stack = .mfree f :: stack) :
    (∃ future, s.futures f = some future) ∧
      ({ s with futures := update s.futures f none, stack := stack } : State).Inv
        none none := by
  have hfrees : s.stack.filterMap Frame.frees = f :: stack.filterMap Frame.frees := by
    rw [hs, filterMap_cons_some (show Frame.frees (.mfree f) = some f from rfl)]
  obtain ⟨future, hf, hzero⟩ := h.freed f (by rw [hfrees]; exact .head _)
  refine ⟨⟨future, hf⟩, ?_⟩
  have honce := h.freed_once
  rw [hfrees, nodup_cons] at honce
  have hother : ∀ g, g ≠ f → update s.futures f none g = s.futures g :=
    fun g hg => update_of_ne hg _ _
  have hself : update s.futures f none f = none := update_self _ _ _
  have hwaits : ∀ w t, (({ s with
      futures := update s.futures f none, stack := stack } : State).waits_for w t) =
        s.waits_for w t := by
    intro w t
    unfold waits_for
    dsimp only
    by_cases hw : w = f
    · subst hw
      rw [hf]
      simp [hzero]
    · rw [hother w hw]
  have hgone : ∀ g fut, update s.futures f none g = some fut →
      g ≠ f ∧ s.futures g = some fut := by
    intro g fut hg
    have hgf : g ≠ f := by
      rintro rfl
      rw [hself] at hg
      cases hg
    exact ⟨hgf, (hother g hgf).symm.trans hg⟩
  refine ⟨h.sane, fun g => ?_, fun g hg => ?_, fun w fut t hw ht => ?_, fun g hg => ?_, honce.2,
    fun t fut w ht hw => ?_, fun frame hframe t r hr => ?_, h.noted, fun g fut hg hp => ?_,
    fun g fut hg hr => ?_, h.by_target, fun w fut t target hwo hw hp ht htf => ?_⟩
  · have hc := h.counted g
    rw [hs, countP_cons_of_neg (by simp [Frame.holds])] at hc
    have hw : ({ s with
        futures := update s.futures f none, stack := stack } : State).waiting g =
          s.waiting g := countP_congr fun w _ => by rw [hwaits]
    rw [hw]
    refine Eq.trans ?_ hc
    unfold n_ref
    by_cases hg : g = f
    · subst hg
      simp [hf, hzero]
    · simp [hg]
  · refine ⟨?_, (h.fresh g hg).2⟩
    by_cases hgf : g = f
    · subst hgf
      exact hself
    · exact (hother g hgf).trans (h.fresh g hg).1
  · exact h.target w fut t (hgone w fut hw).2 ht
  · obtain ⟨fut, hfut, hz⟩ := h.freed g (by rw [hfrees]; exact mem_cons_of_mem _ hg)
    have hgf : g ≠ f := by
      rintro rfl
      exact honce.1 hg
    exact ⟨fut, (hother g hgf).trans hfut, hz⟩
  · exact (hwaits w t).trans (h.waiter t fut w (hgone t fut ht).2 hw)
  · obtain ⟨hws, hrt⟩ := h.walked frame (by rw [hs]; exact mem_cons_of_mem _ hframe) t r hr
    exact ⟨fun w hw => (hwaits w t).trans (hws w hw), hrt⟩
  · exact h.pending g fut (hgone g fut hg).2 hp
  · exact h.resolved g fut (hgone g fut hg).2 hr
  · rcases h.settling w fut t target hwo (hgone w fut hw).2 hp ht (hgone t target htf).2 with
      ⟨hin, hc⟩ | ⟨fr, hin, hwk⟩
    · refine .inl ⟨hin, fun hr => ?_⟩
      obtain ⟨r, hr⟩ := hc hr
      rw [hs] at hr
      rcases mem_cons.mp hr with hr | hr
      · cases hr
      · exact ⟨r, hr⟩
    · rw [hs] at hin
      rcases mem_cons.mp hin with rfl | hin
      · obtain ⟨⟨r, hr⟩, -⟩ := hwk
        cases hr
      · exact .inr ⟨fr, hin, hwk⟩

/-- **A new future**: the reference of the target passes to a wait future. -/
theorem Inv.sd_future_new {target : Option Nat} (h : s.Inv target none)
    (ht : ∀ t, target = some t → t < s.next) (callback : Bool) :
    (s.sd_future_new callback target).Inv (some s.next) (some s.next) := by
  have hnone := (h.fresh s.next (Nat.le_refl _)).1
  generalize hnew : (⟨1, false, 0, [], callback, target⟩ : SdFuture) = new
  have hother : ∀ g, g ≠ s.next → (s.sd_future_new callback target).futures g = s.futures g :=
    fun g hg => update_of_ne hg _ _
  have hself : (s.sd_future_new callback target).futures s.next = some new := by
    rw [← hnew]
    exact update_self _ _ _
  have hold : ∀ {g : Nat} {future : SdFuture},
      (s.sd_future_new callback target).futures g = some future →
        (g = s.next ∧ new = future) ∨ (g ≠ s.next ∧ s.futures g = some future) := by
    intro g future hg
    by_cases hgn : g = s.next
    · subst hgn
      exact .inl ⟨rfl, some.inj (hself.symm.trans hg)⟩
    · exact .inr ⟨hgn, (hother g hgn).symm.trans hg⟩
  have hwaits : ∀ w t, w ≠ s.next →
      (s.sd_future_new callback target).waits_for w t = s.waits_for w t := by
    intro w t hw
    unfold waits_for
    rw [hother w hw]
  have hkeep : ∀ w t, s.waits_for w t = true →
      (s.sd_future_new callback target).waits_for w t = true :=
    fun w t hw => (hwaits w t (Nat.ne_of_lt (waits_for_lt h hw))).trans hw
  have hwaiting : ∀ t, (s.sd_future_new callback target).waiting t =
      s.waiting t + held target t := by
    intro t
    show (range (s.next + 1)).countP _ = _
    rw [range_succ, countP_append]
    have hlow : (range s.next).countP
        (fun w => (s.sd_future_new callback target).waits_for w t) = s.waiting t := by
      refine countP_congr fun w hw => ?_
      have := mem_range.mp hw
      rw [hwaits w t (by omega)]
    have hlast : (s.sd_future_new callback target).waits_for s.next t = decide (target = some t) := by
      unfold waits_for
      rw [hself, ← hnew]
      simp
    rw [hlow, countP_singleton, hlast]
    unfold held
    by_cases he : target = some t
    · simp
    · simp
  refine ⟨h.sane, fun g => ?_, fun g hg => ?_, fun w fut t hw htt => ?_, fun g hg => ?_,
    h.freed_once, fun t fut w htf hw => ?_, fun frame hframe t r hr => ?_, h.noted,
    fun g fut hg hp => ?_, fun g fut hg hr => ?_, h.by_target,
    fun w fut t fut' hwo hw hp htt htf => ?_⟩
  · have hc := h.counted g
    rw [hwaiting]
    show (s.sd_future_new callback target).n_ref g = s.owned g + (s.waiting g + held target g) +
      s.stack.countP (Frame.holds g) + held (some s.next) g
    unfold n_ref at hc ⊢
    by_cases hg : g = s.next
    · subst hg
      rw [hnone, elim_none] at hc
      rw [hself, ← hnew, held_self]
      show 1 = _
      omega
    · rw [hother g hg, held_ne hg]
      omega
  · have hg' : s.next + 1 ≤ g := hg
    refine ⟨(hother g (by omega)).trans (h.fresh g (by omega)).1, (h.fresh g (by omega)).2⟩
  · rcases hold hw with ⟨rfl, rfl⟩ | ⟨-, hw'⟩
    · rw [← hnew] at htt
      exact ht t htt
    · exact h.target w fut t hw' htt
  · obtain ⟨fut, hfut, hz⟩ := h.freed g hg
    have hgn : g ≠ s.next := by
      rintro rfl
      rw [hnone] at hfut
      cases hfut
    exact ⟨fut, (hother g hgn).trans hfut, hz⟩
  · rcases hold htf with ⟨rfl, rfl⟩ | ⟨-, htf'⟩
    · rw [← hnew] at hw
      cases hw
    · exact hkeep w t (h.waiter t fut w htf' hw)
  · obtain ⟨hws, hrt⟩ := h.walked frame hframe t r hr
    exact ⟨fun w hw => hkeep w t (hws w hw), hrt⟩
  · rcases hold hg with ⟨rfl, -⟩ | ⟨-, hg'⟩
    · exact (h.fresh s.next (Nat.le_refl _)).2
    · exact h.pending g fut hg' hp
  · rcases hold hg with ⟨-, rfl⟩ | ⟨-, hg'⟩
    · rw [← hnew] at hr
      cases hr
    · exact h.resolved g fut hg' hr
  · rcases hold hw with ⟨rfl, -⟩ | ⟨-, hw'⟩
    · exact absurd rfl hwo
    · have htlt := h.target w fut t hw' htt
      have hwlt : w < s.next := by
        by_contra hge
        rw [(h.fresh w (by omega)).1] at hw'
        cases hw'
      rcases hold htf with ⟨rfl, -⟩ | ⟨-, htf'⟩
      · omega
      · exact h.settling w fut t fut' (some_ne_none w) hw' hp htt htf'

section
variable (h : s.Inv none none)
include h

/-- A future that has just been made is no wait future, or is dealt with. -/
theorem Inv.create (callback : Bool) :
    ((s.sd_future_new callback none).own s.next).Inv none none := by
  refine (Inv.sd_future_new h (fun t ht => by cases ht) callback).own.settle
    fun future t target hw _ ht => ?_
  have hself : (s.sd_future_new callback none).futures s.next = some _ :=
    update_self _ _ _
  rw [show (s.sd_future_new callback none).futures s.next = some future from hw] at hself
  rw [some.inj hself] at ht
  cases ht

/-- **Cancelling**: the function of the program, or out of the set of waiters
    and resolved. -/
theorem Inv.sd_future_cancel (hf : s.futures f = some future) (hpos : 0 < future.n_ref)
    (hmax : future.resolved = false → future.target.isSome = true → future.n_ref ≠ UINT_MAX) :
    (s.sd_future_cancel f).Inv none none := by
  unfold State.sd_future_cancel
  rw [hf]
  dsimp only
  cases hres : future.resolved with
  | true =>
    exact h.frames none [] [] s.owned 0 rfl (fun g => rfl) rfl
      (fun _ hm => absurd hm not_mem_nil) fun _ hm => absurd hm not_mem_nil
  | false =>
    cases ht : future.target with
    | none =>
      exact h.frames none [] [.cancel f] s.owned s.ret rfl (fun g => by simp [Frame.holds]) rfl
        (by simp [Frame.resolves]) fun _ hm => absurd hm not_mem_nil
    | some t =>
      have hwaits : s.waits_for f t = true := by simp [waits_for, hf, ht, hpos]
      obtain ⟨target, htarget, -⟩ := h.alive_of_waits hwaits
      have htf : t ≠ f := Nat.ne_of_lt (h.target f future t hf ht)
      dsimp only
      rw [htarget]
      have hremoved := h.remove_waiter (f := f) htarget (some f) (.inl rfl) (.inl rfl)
      refine hremoved.sd_future_resolve ((update_of_ne (Ne.symm htf) _ _).trans hf) hpos
        (fun hp => hmax hp (by rw [ht]; rfl)) (fun u hu => by cases hu) (.inr rfl)

/-- A wait future with one reference, for a target that is pending too. -/
def Abandoned (s : State) (w : Nat) : Prop :=
  ∃ future, s.futures w = some future ∧ future.n_ref = 1 ∧ future.resolved = false ∧
    ∀ t target, future.target = some t → s.futures t = some target → target.resolved = false

/-- **A wait future**: for a target that is resolved it is resolved at once, and
    otherwise it is among the waiters. -/
theorem Inv.sd_future_new_wait {t : Nat} {target : SdFuture} (ht : s.futures t = some target)
    (hpos : 0 < target.n_ref) (hmax : target.n_ref ≠ UINT_MAX) (callback memory : Bool) :
    (s.sd_future_new_wait t callback memory).Inv none none ∨
      ∃ w stack, (s.sd_future_new_wait t callback memory).stack = .unref w :: stack ∧
        (s.sd_future_new_wait t callback memory).Abandoned w ∧
        (s.sd_future_new_wait t callback memory).Inv none (some w) := by
  obtain ⟨he, href⟩ := h.sd_future_ref ht hpos hmax
  have htlt : t < s.next := by
    by_contra hge
    rw [(h.fresh t (by omega)).1] at ht
    cases ht
  have hne : t ≠ s.next := Nat.ne_of_lt htlt
  -- the reference of the target first, which comes to the same
  have hnew := Inv.sd_future_new href (fun u hu => by
    cases hu
    rw [he]
    exact htlt) callback
  have hcomm : (s.sd_future_new callback (some t)).sd_future_ref t =
      (s.sd_future_ref t).sd_future_new callback (some t) := by
    have hget : (s.sd_future_new callback (some t)).futures t = some target :=
      (update_of_ne hne _ _).trans ht
    rw [he, State.sd_future_ref, hget]
    dsimp only
    rw [if_neg (by omega)]
    unfold State.sd_future_new State.set
    rw [update_comm (Ne.symm hne)]
  generalize hs : (s.sd_future_ref t).sd_future_new callback (some t) = s1 at hcomm hnew
  have hnext : (s.sd_future_ref t).next = s.next := by
    rw [he]
    rfl
  rw [hnext] at hnew
  have ht1 : s1.futures t = some { target with n_ref := target.n_ref + 1 } := by
    rw [← hs, he]
    exact (update_of_ne hne _ _).trans (update_self _ _ _)
  have hw1 : s1.futures s.next = some ⟨1, false, 0, [], callback, some t⟩ := by
    rw [← hs, he]
    exact update_self _ _ _
  unfold State.sd_future_new_wait
  rw [hcomm]
  dsimp only
  rw [ht1]
  dsimp only
  rw [if_neg (by rw [hnew.sane]; simp)]
  cases hres : target.resolved with
  | true =>
    left
    have hframe : (s1.push [.new_wait s.next]).Inv none (some s.next) :=
      hnew.frames none [] [.new_wait s.next] s1.owned s1.ret rfl (fun g => by
        by_cases hg : g = s.next
        · subst hg
          simp [Frame.holds]
        · have hg' : ¬ s.next = g := fun he => hg he.symm
          simp [Frame.holds, held_ne hg, hg'])
        rfl (by simp [Frame.resolves]) fun _ hm => absurd hm not_mem_nil
    refine hframe.sd_future_resolve hw1 Nat.one_pos (fun _ => show 1 ≠ UINT_MAX by decide) (fun u hu => ?_)
      (.inr rfl)
    cases hu
    have hr := hnew.resolved t _ ht1
    exact hr hres
  | false =>
    rw [if_neg (by simp)]
    cases memory with
    | true =>
      left
      have hwaits : s1.waits_for s.next t = true := by simp [waits_for, hw1]
      have hset : (s1.set t { target with
          n_ref := target.n_ref + 1, waiters := s.next :: target.waiters, resolved := false }).Inv
            (some s.next) (some s.next) := by
        refine hnew.set ht1 rfl Iff.rfl hres.symm rfl (fun g => ?_) (fun w hw => ?_)
          (fun w hw => .inl (mem_cons_of_mem _ hw)) (.inr rfl)
        · by_cases hg : g = t
          · subst hg
            simp [n_ref, ht1]
          · simp [hg]
        · rcases mem_cons.mp hw with rfl | hw
          · exact .inr hwaits
          · exact .inl hw
      have hsettled := hset.own.settle fun future u target' hw _ htu htarget' => by
        have hw' : s1.futures s.next = some future :=
          (update_of_ne (Ne.symm hne) _ _).symm.trans hw
        rw [hw1] at hw'
        rw [← some.inj hw'] at htu
        cases htu
        have hself : (s1.set t { target with
            n_ref := target.n_ref + 1, waiters := s.next :: target.waiters,
            resolved := false }).futures t = some _ := update_self _ _ _
        rw [show (s1.set t _).futures t = some target' from htarget'] at hself
        rw [some.inj hself]
        exact .inl ⟨mem_cons_self, fun hr => by cases hr⟩
      exact hsettled.frames none [] [] _ 0 rfl (fun g => rfl) rfl
        (fun _ hm => absurd hm not_mem_nil) fun _ hm => absurd hm not_mem_nil
    | false =>
      right
      rw [if_neg (by simp)]
      refine ⟨s.next, .give (-ENOMEM) :: s1.stack, rfl, ⟨_, hw1, rfl, rfl, fun u fut hu hfut => ?_⟩,
        ?_⟩
      · cases hu
        rw [show (s1.push [.unref s.next, .give (-ENOMEM)]).futures t = s1.futures t from rfl,
          ht1] at hfut
        rw [← some.inj hfut]
        exact hres
      exact hnew.frames none [] [.unref s.next, .give (-ENOMEM)] s1.owned s1.ret rfl (fun g => by
        by_cases hg : g = s.next
        · subst hg
          simp [Frame.holds]
        · have hg' : ¬ s.next = g := fun he => hg he.symm
          simp [Frame.holds, held_ne hg, hg'])
        rfl (by simp [Frame.resolves]) fun _ hm => absurd hm not_mem_nil

/-! ### The loop of `sd_future_resolve` -/

variable {order : List Nat}

/-- Behind the callback: the waiters are taken. -/
theorem Inv.take_waiters {r : Int} {stack : List Frame} (hs : s.stack = .called f result :: stack)
    (hf : s.futures f = some future) (horder : order.Perm future.waiters) :
    ((({ s with stack := stack } : State).set f { future with waiters := [] }).push
      [.waiters f order result r]).Inv none none := by
  have hhead : Frame.called f result ∈ s.stack := by rw [hs]; exact .head _
  have hres := (h.walked _ hhead f result rfl).2
  have hstack : ({ s with
      stack := .waiters f order result r :: stack, owned := s.owned, ret := s.ret } : State).Inv
        none none := by
    refine h.stack s.ret (fun g => ?_) ?_ (fun frame hframe => ?_)
      fun w fut t target hwo _ _ _ htf => ⟨hwo, fun hset => ?_⟩
    · rw [hs]
      simp [countP_cons, Frame.holds]
    · rw [hs]
      rfl
    · rcases mem_cons.mp hframe with rfl | hin
      · refine .inr fun t u hr => ?_
        obtain ⟨rfl, rfl⟩ := Prod.mk.inj (some.inj hr)
        exact ⟨fun w hw => h.waiter f future w hf (horder.mem_iff.mp hw), hres⟩
      · exact .inl (by rw [hs]; exact mem_cons_of_mem _ hin)
    · -- the waiters of this future are in the new frame
      rcases hset with ⟨hin, hc⟩ | ⟨fr, hin, ⟨u, hu⟩, hwk⟩
      · by_cases htf' : t = f
        · subst htf'
          rw [hf] at htf
          cases htf
          exact .inr ⟨_, .head _, ⟨result, rfl⟩, horder.mem_iff.mpr hin⟩
        · refine .inl ⟨hin, fun hr => ?_⟩
          obtain ⟨u, hu⟩ := hc hr
          rw [hs] at hu
          rcases mem_cons.mp hu with he | hu
          · exact absurd (Frame.called.inj he).1 htf'
          · exact ⟨u, mem_cons_of_mem _ hu⟩
      · rw [hs] at hin
        rcases mem_cons.mp hin with rfl | hin
        · cases hwk
        · exact .inr ⟨fr, mem_cons_of_mem _ hin, ⟨u, hu⟩, hwk⟩
  refine hstack.set (f := f) hf rfl Iff.rfl rfl rfl (fun g => ?_)
    (fun w hw => absurd hw not_mem_nil) (fun w hw => ?_) (.inl rfl)
  · by_cases hg : g = f
    · subst hg
      simp [n_ref, hf]
    · simp [hg]
  · exact .inr (.inr (.inl ⟨_, .head _, ⟨result, rfl⟩, horder.mem_iff.mpr hw⟩))

/-- The head of the loop, for one more waiter, or from one call to the next. -/
theorem Inv.walk_on {old : Frame} {stack : List Frame} (new : Frame) (out : Option Nat)
    (hs : s.stack = old :: stack) (r : Int) (hold : old.resolves = some (f, result))
    (hnew : new.resolves = some (f, result)) (hcalled : ∀ g u, old ≠ .called g u)
    (hholds : ∀ g, new.holds g = old.holds g) (hfrees : new.frees = old.frees)
    (hsub : ∀ w ∈ new.walks, w ∈ old.walks) (hdrop : ∀ w ∈ old.walks, w ∈ new.walks ∨ some w = out) :
    ({ s with stack := new :: stack, owned := s.owned, ret := r } : State).Inv none out := by
  have hhead : old ∈ s.stack := by rw [hs]; exact .head _
  refine h.stack r (fun g => ?_) ?_ (fun frame hframe => ?_)
    fun w fut t target hwo _ _ _ htf => ⟨some_ne_none w, fun hset => ?_⟩
  · rw [hs]
    simp [countP_cons, hholds]
  · rw [hs]
    simp [filterMap_cons, hfrees]
  · rcases mem_cons.mp hframe with rfl | hin
    · refine .inr fun t u hr => ?_
      rw [hnew] at hr
      obtain ⟨rfl, rfl⟩ := Prod.mk.inj (some.inj hr)
      obtain ⟨hws, hres⟩ := h.walked old hhead f result hold
      exact ⟨fun w hw => hws w (hsub w hw), hres⟩
    · exact .inl (by rw [hs]; exact mem_cons_of_mem _ hin)
  · rcases hset with ⟨hin, hc⟩ | ⟨fr, hin, ⟨u, hu⟩, hwk⟩
    · refine .inl ⟨hin, fun hr => ?_⟩
      obtain ⟨u, hu⟩ := hc hr
      rw [hs] at hu
      rcases mem_cons.mp hu with he | hu
      · exact absurd he.symm (hcalled t u)
      · exact ⟨u, mem_cons_of_mem _ hu⟩
    · rw [hs] at hin
      rcases mem_cons.mp hin with rfl | hin
      · rw [hold] at hu
        obtain ⟨rfl, rfl⟩ := Prod.mk.inj (some.inj hu)
        rcases hdrop w hwk with hw | hw
        · exact .inr ⟨new, .head _, ⟨result, hnew⟩, hw⟩
        · exact absurd hw hwo
      · exact .inr ⟨fr, mem_cons_of_mem _ hin, ⟨u, hu⟩, hwk⟩

/-- **What goes on without the program** keeps the invariant, under the
    condition. -/
theorem Inv.go (hok : s.Clean (.go order)) (hst : s.go order = some s') : s'.Inv none none := by
  obtain ⟨hreleased, htaken⟩ := hok
  unfold State.go at hst
  match hs : s.stack with
  | .called f result :: stack =>
    simp only [hs] at hst
    have hhead : Frame.called f result ∈ s.stack := by rw [hs]; exact .head _
    obtain ⟨future, hf, -⟩ := h.alive_of_frame (f := f) hhead (by simp [Frame.holds])
    rw [hf] at hst
    dsimp only at hst
    split at hst
    · next horder =>
      cases hst
      exact h.take_waiters hs hf horder
    · cases hst
  | .waiters f [] result r :: stack =>
    simp only [hs] at hst
    cases hst
    exact h.frames none [.waiters f [] result r] [.unref f, .give r] s.owned s.ret hs
      (fun g => by simp [Frame.holds, countP_cons]) rfl (by simp [Frame.resolves])
      (by simp [Frame.walks])
  | .waiters f (w :: ws) result r :: stack =>
    simp only [hs] at hst
    cases hst
    have hhead : Frame.waiters f (w :: ws) result r ∈ s.stack := by rw [hs]; exact .head _
    obtain ⟨hws, hres⟩ := h.walked _ hhead f result rfl
    have hwaits := hws w (.head _)
    have hwalk := h.walk_on (.waited f ws result r) (some w) hs s.ret rfl rfl
      (by simp) (fun g => rfl) rfl (fun v hv => .tail _ hv) (fun v hv => by
        rcases mem_cons.mp hv with rfl | hv
        · exact .inr rfl
        · exact .inl hv)
    unfold waits_for at hwaits
    cases hw : s.futures w with
    | none =>
      rw [hw] at hwaits
      cases hwaits
    | some future =>
      rw [hw, any_some, Bool.and_eq_true, decide_eq_true_eq, decide_eq_true_eq] at hwaits
      refine hwalk.sd_future_resolve hw hwaits.2 (fun hp => ?_)
        (fun u hu => ?_) (.inr rfl)
      · exact htaken w future (by simp [taken, hs, hw, hp]) hw
      · cases hu
        exact hres
  | .waited f ws result r :: stack =>
    simp only [hs] at hst
    cases hst
    exact h.walk_on (.waiters f ws result (RET_GATHER r s.ret)) none hs s.ret rfl rfl
      (by simp) (fun g => rfl) rfl (fun v hv => hv) fun v hv => .inl hv
  | .unref f :: stack =>
    simp only [hs] at hst
    cases hst
    have hpop := h.frames (some f) [.unref f] [] s.owned s.ret hs (fun g => by
      by_cases hg : g = f
      · subst hg
        simp [Frame.holds]
      · have hg' : ¬ f = g := fun he => hg he.symm
        simp [Frame.holds, held_ne hg, hg']) rfl (fun _ hm => absurd hm not_mem_nil)
      (by simp [Frame.resolves])
    refine hpop.sd_future_unref fun future hf hone => ?_
    obtain ⟨hres, hwalks⟩ := hreleased f future (by simp [released, hs]) hf hone
    exact ⟨hres, fun frame hframe => hwalks frame (by
      rw [hs]
      exact mem_cons_of_mem _ hframe)⟩
  | .give r :: stack =>
    simp only [hs] at hst
    cases hst
    exact h.frames none [.give r] [] s.owned r hs (fun g => by simp [Frame.holds]) rfl
      (fun _ hm => absurd hm not_mem_nil) (by simp [Frame.resolves])
  | .mfree f :: stack =>
    simp only [hs] at hst
    obtain ⟨⟨future, hf⟩, hfree⟩ := h.mfree hs
    rw [hf] at hst
    cases hst
    exact hfree
  | .new_wait w :: stack =>
    simp only [hs] at hst
    split at hst
    · cases hst
      exact h.frames none [.new_wait w] [.unref w, .give s.ret] s.owned s.ret hs
        (fun g => by simp [Frame.holds, countP_cons]) rfl (by simp [Frame.resolves])
        (by simp [Frame.resolves])
    · cases hst
      refine h.frames none [.new_wait w] [] (update s.owned w (s.owned w + 1)) 0 hs
        (fun g => ?_) rfl (fun _ hm => absurd hm not_mem_nil) (by simp [Frame.resolves])
      by_cases hg : g = w
      · subst hg
        simp [Frame.holds]
      · have hg' : ¬ w = g := fun he => hg he.symm
        simp [Frame.holds, hg, hg']
  | .callback _ :: _ =>
    simp only [hs] at hst
    cases hst
  | .cancel _ :: _ =>
    simp only [hs] at hst
    cases hst
  | .free _ :: _ =>
    simp only [hs] at hst
    cases hst
  | [] =>
    simp only [hs] at hst
    cases hst

/-! ## Section 7: Every step -/

/-- A function of the program returns. -/
theorem Inv.back {frame : Frame} {stack : List Frame} (hs : s.stack = frame :: stack)
    (hholds : ∀ g, frame.holds g = false) (hfrees : frame.frees = none)
    (hresolves : frame.resolves = none) (r : Int) :
    ({ s with stack := stack, ret := r } : State).Inv none none :=
  h.frames none [frame] [] s.owned r hs (fun g => by simp [hholds])
    (by simp [hfrees]) (fun _ hm => absurd hm not_mem_nil)
    (by simp [hresolves])

/-- Between two steps: the invariant, or a wait future for which there was no
    memory is about to be freed, which the condition excludes. -/
def Between (s : State) : Prop :=
  s.Inv none none ∨
    ∃ w stack, s.stack = .unref w :: stack ∧ s.Abandoned w ∧ s.Inv none (some w)

/-- The calls of the program keep the invariant, under the condition. -/
theorem Inv.call {label : Label} (hok : s.Clean label) (hst : s.call label = some s') :
    s'.Between := by
  obtain ⟨hreleased, htaken⟩ := hok
  cases label with
  | create callback =>
    cases hst
    exact .inl (h.create callback)
  | set_callback f callback =>
    unfold State.call at hst
    dsimp only at hst
    cases hf : s.futures f with
    | none =>
      rw [hf] at hst
      cases hst
    | some future =>
      simp only [hf] at hst
      split at hst
      · cases hst
        refine .inl (h.set hf rfl Iff.rfl rfl rfl (fun g => ?_) (fun w hw => .inl hw)
          (fun w hw => .inl hw) (.inl rfl))
        by_cases hg : g = f
        · subst hg
          simp [n_ref, hf]
        · simp [hg]
      · cases hst
  | ref f =>
    unfold State.call at hst
    dsimp only at hst
    split at hst
    · next hlive =>
      cases hst
      obtain ⟨future, hf, hpos⟩ := live_iff.mp hlive
      exact .inl (h.sd_future_ref hf hpos (htaken f future rfl hf)).2.own
    · cases hst
  | unref f =>
    unfold State.call at hst
    dsimp only at hst
    split at hst
    · next howned =>
      cases hst
      exact .inl ((h.disown howned).sd_future_unref fun future hf hone =>
        hreleased f future rfl hf hone)
    · cases hst
  | resolve f result =>
    unfold State.call at hst
    dsimp only at hst
    split at hst
    · next hlive =>
      cases hst
      obtain ⟨future, hf, hpos⟩ := live_iff.mp hlive
      exact .inl (h.sd_future_resolve hf hpos
        (fun hp => htaken f future (by simp [taken, hf, hp]) hf) (fun t ht => by cases ht)
        (.inl rfl))
    · cases hst
  | cancel f =>
    unfold State.call at hst
    dsimp only at hst
    split at hst
    · next hlive =>
      cases hst
      obtain ⟨future, hf, hpos⟩ := live_iff.mp hlive
      exact .inl (h.sd_future_cancel hf hpos fun hp ht =>
        htaken f future (by simp [taken, hf, hp, ht]) hf)
    · cases hst
  | new_wait t callback memory =>
    unfold State.call at hst
    dsimp only at hst
    split at hst
    · next hlive =>
      cases hst
      obtain ⟨target, ht, hpos⟩ := live_iff.mp hlive
      exact h.sd_future_new_wait ht hpos (htaken t target rfl ht) callback memory
    · cases hst
  | back r =>
    unfold State.call at hst
    dsimp only at hst
    split at hst
    · next f stack hs =>
      cases hst
      exact .inl (h.back hs (fun g => rfl) rfl rfl r)
    · next f stack hs =>
      cases hst
      exact .inl (h.back hs (fun g => rfl) rfl rfl r)
    · next f stack hs =>
      cases hst
      exact .inl (h.back hs (fun g => rfl) rfl rfl r)
    · cases hst
  | go order => cases hst

end

/-- **Step lemma** -/
theorem Between.step (h : s.Between) {label : Label} (hok : s.Clean label)
    (hst : s.step label = some s') : s'.Between := by
  unfold State.step at hst
  split at hst
  · cases hst
  rcases h with h | ⟨w, stack, hs, ⟨future, hw, hone, hpend, -⟩, -⟩
  · split at hst
    · exact .inl (h.go hok hst)
    · split at hst
      · exact h.call hok hst
      · cases hst
  · -- only the reference of the wait future can be given back now
    split at hst
    · next order =>
      have hclean := (hok.1 w future (by simp [released, hs]) hw hone).1
      rw [hpend] at hclean
      cases hclean
    · simp [in_program, hs] at hst

theorem Between.initial (h : s.initial) : s.Between := by
  obtain ⟨hnext, hfutures, howned, hstack, hhistory, hcrashed⟩ := h
  have hnone : ∀ f, s.futures f = none := fun f => by rw [hfutures]
  refine .inl ⟨hcrashed, fun f => ?_, fun f _ => ⟨hnone f, by rw [hhistory]⟩, fun w future t hw => ?_,
    fun f hf => ?_, ?_, fun t future w ht => ?_, fun frame hframe => ?_, fun f => .inl (by
      rw [hhistory]), fun f future hf => ?_, fun f future hf => ?_, fun w result t callback hin => ?_,
    fun w future t target _ hw => ?_⟩
  · simp [n_ref, waiting, hnone, howned, hstack, hnext]
  · rw [hnone] at hw
    cases hw
  · rw [hstack] at hf
    cases hf
  · rw [hstack]
    exact nodup_nil
  · rw [hnone] at ht
    cases ht
  · rw [hstack] at hframe
    cases hframe
  · rw [hnone] at hf
    cases hf
  · rw [hnone] at hf
    cases hf
  · rw [hhistory] at hin
    cases hin
  · rw [hnone] at hw
    cases hw

end State

/-! ## Section 8: The life of a future -/

/-- What holds of the futures at any time. -/
structure State.Sound (s : State) : Prop where
  /-- No future is accessed that is not there, and no assertion fails. -/
  sane : s.crashed = false
  /-- A future is resolved once at most, and then its callback is invoked
      once. -/
  once : ∀ f, s.history f = [] ∨ ∃ result by_target,
    s.history f = [.resolved result by_target false] ∨
      s.history f = [.called, .resolved result by_target true]
  /-- It is so if and only if it says so. -/
  noted : ∀ f future, s.futures f = some future →
    (future.resolved = true ↔ s.history f ≠ [])
  /-- When `sd_future_resolve` is done with a future, no wait future for it that
      is still there is pending. -/
  waiters : ∀ w future t target, s.futures w = some future → future.target = some t →
    s.futures t = some target → target.resolved = true →
    (∀ frame ∈ s.stack, ∀ result, frame.resolves ≠ some (t, result)) → future.resolved = true
  /-- What is resolved by its target gets the result of it. -/
  same : ∀ w result t callback, Event.resolved result (some t) callback ∈ s.history w →
    ∃ by_target callback', Event.resolved result by_target callback' ∈ s.history t

namespace State

variable {s s' : State}

/-- The invariant says so, whatever is under way. -/
theorem Inv.sound {out : Option Nat} (h : s.Inv none out)
    (hout : ∀ w, out = some w → ∀ future t target, s.futures w = some future →
      future.target = some t → s.futures t = some target → target.resolved = true →
      future.resolved = true) : s.Sound := by
  refine ⟨h.sane, h.noted, fun f future hf => ⟨fun hr he => ?_, fun hne => ?_⟩,
    fun w future t target hw ht htf hr hdone => ?_, h.by_target⟩
  · obtain ⟨b, c, hin⟩ := h.resolved f future hf hr
    rw [he] at hin
    cases hin
  · cases hp : future.resolved with
    | true => rfl
    | false => exact absurd (h.pending f future hf hp) hne
  · cases hp : future.resolved with
    | true => rfl
    | false =>
      by_cases hwo : some w = out
      · exact hp.symm.trans (hout w hwo.symm future t target hw ht htf hr)
      · rcases h.settling w future t target hwo hw hp ht htf with ⟨-, hc⟩ | ⟨fr, hin, ⟨u, hu⟩, -⟩
        · obtain ⟨u, hu⟩ := hc hr
          exact absurd rfl (hdone _ hu u)
        · exact absurd hu (hdone fr hin u)

theorem Between.sound (h : s.Between) : s.Sound := by
  rcases h with h | ⟨w, stack, -, ⟨fut, hw, -, -, ht⟩, h⟩
  · exact h.sound fun w hw => by cases hw
  · refine h.sound fun v hv future t target hfut htt htarget hr => ?_
    cases hv
    rw [hw] at hfut
    cases hfut
    rw [ht t target htt htarget] at hr
    cases hr

/-- **The life of a future**: in every run in which no last reference is given
    back of a future that is pending, or that is still to be visited among the
    waiters of another, and none is taken of a future with `UINT_MAX` of them,
    whatever the callbacks do. -/
theorem future_lifecycle (h : Reachable (lifecycle.restrict Clean) s) : s.Sound := by
  have hbetween : ∀ s, Reachable (lifecycle.restrict Clean) s → s.Between := by
    intro s hs
    induction hs with
    | init hi => exact Between.initial hi
    | step _ hst ih => exact ih.step hst.1 hst.2
  exact (hbetween s h).sound

/-- No futures, and nothing under way. -/
def start : State where
  futures := fun _ => none
  next := 0
  owned := fun _ => 0
  stack := []
  ret := 0
  history := fun _ => []
  crashed := false

theorem start_initial : start.initial := ⟨rfl, rfl, rfl, rfl, rfl, rfl⟩

/-- Whether a step meets the condition. -/
def clean (s : State) (label : Label) : Bool :=
  (s.released label).all (fun f => (s.futures f).all fun future => future.n_ref ≠ 1 ||
    (future.resolved && s.stack.all fun frame => !frame.walks.contains f)) &&
  (s.taken label).all fun f => (s.futures f).all fun future => future.n_ref ≠ UINT_MAX

theorem clean_of_check (label : Label) (h : s.clean label = true) : s.Clean label := by
  unfold clean at h
  rw [Bool.and_eq_true] at h
  refine ⟨fun f future hr hf hone => ?_, fun f future ht hf => ?_⟩
  · have h' := h.1
    rw [hr, all_some, hf] at h'
    simpa [hone] using h'
  · have h' := h.2
    rw [ht, all_some, hf] at h'
    simpa using h'

/-- A future with a callback, and a wait future for it. The callback resolves
    the future once more, which does nothing. -/
def lived : List Label :=
  [.create true, .new_wait 0 true true, .resolve 0 7, .resolve 0 8, .back 0, .go [1], .go [],
    .back 0, .go [], .go [], .go [], .go [], .go [], .go [], .go []]

def lived_state : State := (steps step lived start).getD start

theorem future_lifecycle_one :
    lived_state.Sound ∧ lived_state.history 0 = [.called, .resolved 7 none true] ∧
      lived_state.history 1 = [.called, .resolved 7 (some 0) true] := by
  have hstart : Reachable ((System.of_step initial step).restrict Clean) start :=
    .init start_initial
  have hrun : steps (fun s label => if s.clean label then s.step label else none) lived start =
      some lived_state := rfl
  exact ⟨future_lifecycle (hstart.steps_checked (fun _ => clean_of_check) hrun), by decide, by decide⟩

/-- Giving back the only reference of a pending future fails an assertion:
    `sd_future_resolve` takes a reference of a future that has none. -/
theorem pending_unref_aborts : ¬ ∀ s, Reachable lifecycle s → s.crashed = false := by
  intro h
  have hrun : steps step [.create false, .unref 0] start =
      some ((steps step [.create false, .unref 0] start).getD start) := rfl
  have hsane := h _ (Reachable.of_steps start_initial hrun)
  revert hsane
  decide

end State

end SdCompat.Future
