import Mathlib.Data.List.AList
import SdCompat.Lib.Memory
import SdCompat.Lib.Transition
import SdCompat.SdBus.Type

/-! # Tracked names (bus-track.c)

    A track object follows the owners of names. Adding a name asks for the
    credentials of its owner, and on a fiber other calls come in between. A name
    must not go away then (`track_items_safe`): the item is freed with it, and
    the call goes on with the item (`disturbed_faults`).
-/

open Transition
open SdCompat.Bus (service_name_is_valid)

namespace SdCompat.Track

open List Memory Prod

/-! ## Section 1: Items and names -/

/-- `UINT_MAX` -/
def UINT_MAX : Nat := 2 ^ 32 - 1

/-- `BusTrackItem`; `slot` tells whether there is a match. -/
structure BusTrackItem where
  n_ref : Nat
  name : List UInt8
  slot : Bool
  deriving DecidableEq

/-- `sd_bus_track`, and the memory of its items. -/
structure SdBusTrack where
  n_adding : Nat
  handler : Bool
  names : AList fun _ : List UInt8 => Nat
  in_list : Bool
  in_queue : Bool
  modified : Bool
  recursive : Bool
  items : Memory BusTrackItem

/-- `track_item_free` -/
def track_item_free (p : Nat) (t : SdBusTrack) : SdBusTrack :=
  { t with items := t.items.free p }

/-- `track_item_unref` -/
def track_item_unref (p : Nat) (t : SdBusTrack) : SdBusTrack :=
  let t := { t with items := t.items.modify p fun i => { i with n_ref := i.n_ref - 1 } }
  match t.items.get p with
  | some i => if 0 < i.n_ref then t else track_item_free p t
  | none => t

/-- `bus_track_add_to_queue` -/
def bus_track_add_to_queue (t : SdBusTrack) : SdBusTrack :=
  if t.in_queue then t
  else if 0 < t.n_adding then t
  else if t.names.keys ≠ [] then t
  else if !t.handler then t
  else if !t.in_list then t
  else { t with in_queue := true }

/-- `bus_track_remove_from_queue` -/
def bus_track_remove_from_queue (t : SdBusTrack) : SdBusTrack := { t with in_queue := false }

/-- `bus_track_remove_name_fully` -/
def bus_track_remove_name_fully (name : List UInt8) (t : SdBusTrack) : Outcome Nat × SdBusTrack :=
  match t.names.lookup name with
  | none => (.ok 0, t)
  | some p =>
    let t := bus_track_add_to_queue (track_item_free p { t with names := t.names.erase name })
    (.ok 1, { t with modified := true })

/-- `on_name_owner_changed`: the match of the item has found a signal with this
    name. -/
def on_name_owner_changed (p : Nat) (name : List UInt8) (t : SdBusTrack) : SdBusTrack :=
  (bus_track_remove_name_fully name { t with items := t.items.touch p }).2

/-- `name_owner_changed_install_callback`, of a match that there will not be. -/
def name_owner_changed_install_callback (p : Nat) (name : List UInt8) (t : SdBusTrack) :
    SdBusTrack :=
  (bus_track_remove_name_fully name { t with items := t.items.touch p }).2

/-- What the calls of `sd_bus_track_add_name` return: `hashmap_ensure_allocated`,
    `new`, `strdup`, `sd_bus_add_match_async` and `hashmap_put`. -/
structure AddEnv where
  allocated : Bool
  mem : Bool
  strdup : Bool
  add_match : Option Errno
  put : Bool

/-- How far a call of `sd_bus_track_add_name` gets at once. -/
inductive Added where
  | returned (r : Outcome Nat)
  | suspended (n : Nat)
  deriving DecidableEq

/-- `sd_bus_track_add_name`, up to the call of `sd_bus_get_name_creds`. -/
def sd_bus_track_add_name (env : AddEnv) (name : List UInt8) (t : SdBusTrack) :
    Added × SdBusTrack :=
  if !service_name_is_valid name then (.returned (.err .EINVAL), t)
  else
    match t.names.lookup name with
    | some p =>
      if t.recursive then
        let t := { t with items := t.items.touch p }
        match t.items.get p with
        | none => (.returned .abort, t)
        | some i =>
          if i.n_ref = 0 then (.returned .abort, t)
          else if UINT_MAX ≤ i.n_ref then (.returned (.err .EOVERFLOW), t)
          else
            let t := { t with items := t.items.modify p fun i => { i with n_ref := i.n_ref + 1 } }
            (.returned (.ok 0), bus_track_remove_from_queue t)
      else (.returned (.ok 0), bus_track_remove_from_queue t)
    | none =>
      if !env.allocated then (.returned (.err .ENOMEM), t)
      else if !env.mem then (.returned (.err .ENOMEM), t)
      else
        let n := t.items.next
        let t := { t with items := t.items.alloc ⟨1, [], false⟩ }
        if !env.strdup then (.returned (.err .ENOMEM), track_item_unref n t)
        else
          let t := { t with items := t.items.modify n fun i => { i with name } }
          let t := bus_track_remove_from_queue t
          match env.add_match with
          | some e => (.returned (.err e), track_item_unref n (bus_track_add_to_queue t))
          | none =>
            let t := { t with items := t.items.modify n fun i => { i with slot := true } }
            if !env.put then
              (.returned (.err .ENOMEM), track_item_unref n (bus_track_add_to_queue t))
            else
              (.suspended n, { t with names := t.names.insert name n, n_adding := t.n_adding + 1 })

/-- `sd_bus_track_add_name`, from what `sd_bus_get_name_creds` returns on. -/
def sd_bus_track_add_name_creds (n : Nat) (name : List UInt8) (creds : Option Errno)
    (t : SdBusTrack) : Outcome Nat × SdBusTrack :=
  let t := { t with n_adding := t.n_adding - 1 }
  match creds with
  | some e =>
    let t := bus_track_add_to_queue { t with names := t.names.erase name }
    (.err e, track_item_unref n t)
  | none => (.ok 1, { bus_track_remove_from_queue t with modified := true })

/-- `sd_bus_track_remove_name` -/
def sd_bus_track_remove_name (name : List UInt8) (t : SdBusTrack) : Outcome Nat × SdBusTrack :=
  match t.names.lookup name with
  | none => (.ok 0, t)
  | some p =>
    let t := { t with items := t.items.touch p }
    match t.items.get p with
    | none => (.abort, t)
    | some i =>
      if i.n_ref = 0 then (.abort, t)
      else if i.n_ref ≤ 1 then bus_track_remove_name_fully name t
      else (.ok 1, track_item_unref p t)

/-! ## Section 2: Calls and signals in any order -/

/-- A track object, and the calls of `sd_bus_track_add_name` that wait for the
    credentials. -/
structure Tracking where
  track : SdBusTrack
  adding : List (Nat × List UInt8)

/-- What happens to a track object. -/
inductive TrackLabel where
  | add_name (env : AddEnv) (name : List UInt8)
  | creds (n : Nat) (name : List UInt8) (creds : Option Errno)
  | remove_name (name : List UInt8)
  | owner_changed (p : Nat) (name : List UInt8)
  | install_failed (p : Nat) (name : List UInt8)

/-- There is a match for this name, with this item. -/
def Matched (t : SdBusTrack) (p : Nat) (name : List UInt8) : Prop :=
  ∃ i, t.items.get p = some i ∧ i.slot = true ∧ i.name = name

/-- The calls and signals. -/
def tracking : System Tracking TrackLabel where
  init := fun s =>
    s.track.names = ∅ ∧ s.track.items = .empty ∧ s.track.n_adding = 0 ∧ s.adding = []
  step := fun s l s' =>
    match l with
    | .add_name env name =>
      let r := sd_bus_track_add_name env name s.track
      s' = match r.1 with
        | .returned _ => { s with track := r.2 }
        | .suspended n => { track := r.2, adding := (n, name) :: s.adding }
    | .creds n name creds =>
      (n, name) ∈ s.adding ∧
      s' = { track := (sd_bus_track_add_name_creds n name creds s.track).2
             adding := s.adding.erase (n, name) }
    | .remove_name name => s' = { s with track := (sd_bus_track_remove_name name s.track).2 }
    | .owner_changed p name =>
      Matched s.track p name ∧ s' = { s with track := on_name_owner_changed p name s.track }
    | .install_failed p name =>
      Matched s.track p name ∧
      s' = { s with track := name_owner_changed_install_callback p name s.track }

/-- What a call of `sd_bus_track_add_name` returns in this step. -/
def add_returns (s : Tracking) : TrackLabel → Option (List UInt8 × Outcome Nat)
  | .add_name env name =>
    match (sd_bus_track_add_name env name s.track).1 with
    | .returned r => some (name, r)
    | .suspended _ => none
  | .creds n name creds => some (name, (sd_bus_track_add_name_creds n name creds s.track).1)
  | _ => none

/-- The references to a name. -/
def references (t : SdBusTrack) (name : List UInt8) : Nat :=
  match t.names.lookup name with
  | none => 0
  | some p => ((t.items.get p).map (·.n_ref)).getD 0

/-- The name that goes away in this step: its last reference does, or it has
    another owner, or none, or there is no match. -/
def removes (s : Tracking) : TrackLabel → Option (List UInt8)
  | .remove_name name => if references s.track name ≤ 1 then some name else none
  | .owner_changed _ name => some name
  | .install_failed _ name => some name
  | _ => none

/-- No name goes away while it is being added. -/
def Undisturbed (s : Tracking) (l : TrackLabel) : Prop :=
  ∀ name, removes s l = some name → name ∉ s.adding.map snd

/-! ## Section 3: The invariant -/

/-- All items are live that the table or a call refers to. -/
structure TrackInv (s : Tracking) : Prop where
  fault : s.track.items.fault = false
  live : ∀ p i, s.track.items.get p = some i → 1 ≤ i.n_ref
  entries : ∀ name p, s.track.names.lookup name = some p →
    ∃ i, s.track.items.get p = some i ∧ i.name = name
  adding : ∀ n name, (n, name) ∈ s.adding → s.track.names.lookup name = some n
  once : (s.adding.map snd).Nodup

section queue
variable (t : SdBusTrack)

@[simp] theorem add_to_queue_names : (bus_track_add_to_queue t).names = t.names := by
  unfold bus_track_add_to_queue
  split_ifs <;> rfl

@[simp] theorem add_to_queue_items : (bus_track_add_to_queue t).items = t.items := by
  unfold bus_track_add_to_queue
  split_ifs <;> rfl

@[simp] theorem remove_from_queue_names : (bus_track_remove_from_queue t).names = t.names := rfl

@[simp] theorem remove_from_queue_items : (bus_track_remove_from_queue t).items = t.items := rfl

end queue

section items
variable {t : SdBusTrack} {p q : Nat} {i : BusTrackItem} {name : List UInt8}

@[simp] theorem item_unref_names : (track_item_unref p t).names = t.names := by
  unfold track_item_unref
  dsimp only
  split
  · split
    · rfl
    · rfl
  · rfl

/-- The last reference. -/
theorem item_unref_last (h : t.items.get p = some i) (hn : i.n_ref = 1) :
    (track_item_unref p t).items.fault = t.items.fault ∧ (track_item_unref p t).items.get p = none ∧
      ∀ q, q ≠ p → (track_item_unref p t).items.get q = t.items.get q := by
  have hget := get_modify_self (f := fun i : BusTrackItem => { i with n_ref := i.n_ref - 1 }) h
  have hunref : track_item_unref p t = track_item_free p { t with
      items := t.items.modify p fun i => { i with n_ref := i.n_ref - 1 } } := by
    unfold track_item_unref
    simp [hget, hn]
  rw [hunref]
  refine ⟨?_, get_free_self _ p, fun q hq => ?_⟩
  · exact (fault_free hget).trans (fault_modify h)
  · exact (get_free_of_ne hq).trans (get_modify_of_ne hq)

/-- Another reference is left. -/
theorem item_unref_more (h : t.items.get p = some i) (hn : 2 ≤ i.n_ref) :
    (track_item_unref p t).items =
      t.items.modify p fun i => { i with n_ref := i.n_ref - 1 } := by
  have hget := get_modify_self (f := fun i : BusTrackItem => { i with n_ref := i.n_ref - 1 }) h
  have hpos : 0 < i.n_ref - 1 := by omega
  unfold track_item_unref
  simp [hget, hpos]

/-- The table is the same, and so are the items, but for their references. -/
structure Kept (t t' : SdBusTrack) : Prop where
  names : t'.names = t.names
  fault : t'.items.fault = t.items.fault
  items : ∀ p i, t.items.get p = some i → ∃ i', t'.items.get p = some i' ∧ i'.name = i.name
  live : (∀ p i, t.items.get p = some i → 1 ≤ i.n_ref) →
    ∀ p i, t'.items.get p = some i → 1 ≤ i.n_ref

variable {t' : SdBusTrack}

theorem Kept.of_items (hn : t'.names = t.names) (hi : t'.items = t.items) : Kept t t' := by
  refine ⟨hn, by rw [hi], fun p i h => ⟨i, by rw [hi, h], rfl⟩, ?_⟩
  rw [hi]
  exact id

theorem Kept.modify {f : BusTrackItem → BusTrackItem} (h : t.items.get p = some i)
    (hn : t'.names = t.names) (hi : t'.items = t.items.modify p f) (hname : (f i).name = i.name)
    (href : 1 ≤ (f i).n_ref) : Kept t t' := by
  refine ⟨hn, by rw [hi, fault_modify h], ?_, ?_⟩
  · intro q j hq
    by_cases hqp : q = p
    · subst hqp
      obtain rfl := Option.some.inj (h.symm.trans hq)
      exact ⟨f i, by rw [hi, get_modify_self h], hname⟩
    · exact ⟨j, by rw [hi, get_modify_of_ne hqp, hq], rfl⟩
  · intro hl q j hq
    rw [hi] at hq
    by_cases hqp : q = p
    · subst hqp
      rw [get_modify_self h] at hq
      cases hq
      exact href
    · rw [get_modify_of_ne hqp] at hq
      exact hl q j hq

/-- An item that has been freed before anyone knew of it. -/
theorem Kept.unused {t₁ : SdBusTrack} (hn : t₁.names = t.names)
    (hi : t₁.items = t.items.alloc i) (href : i.n_ref = 1) :
    Kept t (track_item_unref t.items.next t₁) := by
  have hget : t₁.items.get t.items.next = some i := by
    rw [hi]
    exact get_alloc_next _ _
  have hother : ∀ q, q ≠ t.items.next → t₁.items.get q = t.items.get q := by
    intro q hq
    rw [hi, get_alloc_of_ne hq]
  obtain ⟨hfault, hself, hne⟩ := item_unref_last hget href
  refine ⟨by rw [item_unref_names, hn], ?_, ?_, ?_⟩
  · rw [hfault, hi]
    rfl
  · intro q j hq
    have hqn : q ≠ t.items.next := Nat.ne_of_lt (get_lt hq)
    exact ⟨j, by rw [hne q hqn, hother q hqn, hq], rfl⟩
  · intro hl q j hq
    by_cases hqn : q = t.items.next
    · rw [hqn, hself] at hq
      cases hq
    · rw [hne q hqn, hother q hqn] at hq
      exact hl q j hq

end items

section calls
variable {s : Tracking} {t : SdBusTrack} {name : List UInt8} {n p : Nat}

theorem TrackInv.kept (hi : TrackInv s) (hk : Kept s.track t) : TrackInv { s with track := t } := by
  refine ⟨hk.fault.trans hi.fault, hk.live hi.live, ?_, ?_, hi.once⟩
  · intro name p hp
    obtain ⟨i, hget, hname⟩ := hi.entries name p (by rw [← hk.names]; exact hp)
    obtain ⟨i', hget', hname'⟩ := hk.items p i hget
    exact ⟨i', hget', hname'.trans hname⟩
  · intro n name hn
    rw [hk.names]
    exact hi.adding n name hn

/-- The call returns an error, or nothing new. -/
def NotPositive (r : Outcome Nat) : Prop := ∀ v, r = .ok v → v = 0

theorem notPositive_err (e : Errno) : NotPositive (.err e) := by
  intro v hv
  cases hv

theorem notPositive_zero : NotPositive (.ok 0) := by
  intro v hv
  cases hv
  rfl

/-- What a call of `sd_bus_track_add_name` does at once: it changes references
    at most, or it adds the name, with a new item. -/
theorem add_name_cases (env : AddEnv) (name : List UInt8) (hi : TrackInv s) :
    (∃ r, (sd_bus_track_add_name env name s.track).1 = .returned r ∧ NotPositive r ∧
      Kept s.track (sd_bus_track_add_name env name s.track).2) ∨
    ((sd_bus_track_add_name env name s.track).1 = .suspended s.track.items.next ∧
      s.track.names.lookup name = none ∧ (sd_bus_track_add_name env name s.track).2.names =
        s.track.names.insert name s.track.items.next ∧
      (sd_bus_track_add_name env name s.track).2.items = s.track.items.alloc ⟨1, name, true⟩) := by
  unfold sd_bus_track_add_name
  split
  · -- no name of a service
    exact .inl ⟨_, rfl, notPositive_err _, .of_items rfl rfl⟩
  cases hl : s.track.names.lookup name with
  | some p =>
    obtain ⟨i, hget, _⟩ := hi.entries name p hl
    have href := hi.live p i hget
    left
    dsimp only
    split
    · simp only [touch_of_get hget, hget]
      rw [if_neg (by omega)]
      split
      · exact ⟨_, rfl, notPositive_err _, .of_items rfl rfl⟩
      · refine ⟨_, rfl, notPositive_zero, ?_⟩
        exact .modify hget rfl rfl rfl (show 1 ≤ i.n_ref + 1 by omega)
    · exact ⟨_, rfl, notPositive_zero, .of_items rfl rfl⟩
  | none =>
    dsimp only
    split
    · exact .inl ⟨_, rfl, notPositive_err _, .of_items rfl rfl⟩
    split
    · exact .inl ⟨_, rfl, notPositive_err _, .of_items rfl rfl⟩
    split
    · exact .inl ⟨_, rfl, notPositive_err _, .unused rfl rfl rfl⟩
    cases env.add_match with
    | some e =>
      refine .inl ⟨_, rfl, notPositive_err _, .unused (i := ⟨1, name, false⟩) ?_ ?_ rfl⟩
      · simp
      · simp
    | none =>
      dsimp only
      split
      · refine .inl ⟨_, rfl, notPositive_err _, .unused (i := ⟨1, name, true⟩) ?_ ?_ rfl⟩
        · simp
        · simp
      · exact .inr ⟨rfl, rfl, rfl, by simp⟩

variable {s' : Tracking}

theorem inv_add_name (env : AddEnv) (hi : TrackInv s)
    (hst : tracking.step s (.add_name env name) s') : TrackInv s' := by
  obtain rfl := hst
  rcases add_name_cases env name hi with ⟨r, hr, _, hk⟩ | ⟨hr, hnone, hnames, hitems⟩
  · rw [hr]
    exact hi.kept hk
  · rw [hr]
    -- the new item and the new call
    refine ⟨?_, ?_, ?_, ?_, ?_⟩
    · rw [hitems]
      exact hi.fault
    · rw [hitems]
      intro p i hp
      by_cases hpn : p = s.track.items.next
      · rw [hpn, get_alloc_next] at hp
        cases hp
        exact Nat.le_refl 1
      · rw [get_alloc_of_ne hpn] at hp
        exact hi.live p i hp
    · rw [hitems, hnames]
      intro name' p hp
      by_cases hname : name' = name
      · subst hname
        rw [AList.lookup_insert] at hp
        cases hp
        exact ⟨_, get_alloc_next _ _, rfl⟩
      · rw [AList.lookup_insert_ne hname] at hp
        obtain ⟨i, hget, hi'⟩ := hi.entries name' p hp
        exact ⟨i, get_alloc_of_get hget, hi'⟩
    · rw [hnames]
      intro n name' hn
      rcases mem_cons.mp hn with heq | hn
      · obtain ⟨rfl, rfl⟩ := mk.inj heq
        exact AList.lookup_insert _
      · have hold := hi.adding n name' hn
        rw [AList.lookup_insert_ne, hold]
        rintro rfl
        rw [hnone] at hold
        cases hold
    · refine nodup_cons.mpr ⟨?_, hi.once⟩
      intro hmem
      obtain ⟨⟨n, name'⟩, hn, rfl⟩ := mem_map.mp hmem
      have hold := hi.adding n name' hn
      rw [hnone] at hold
      cases hold

/-- A name leaves the table, and its item goes. -/
theorem inv_remove_fully (hi : TrackInv s) (hn : name ∉ s.adding.map snd) :
    TrackInv { s with track := (bus_track_remove_name_fully name s.track).2 } := by
  unfold bus_track_remove_name_fully
  cases hl : s.track.names.lookup name with
  | none => exact hi
  | some p =>
    obtain ⟨i, hget, hname⟩ := hi.entries name p hl
    have hother : ∀ name' q, name' ≠ name → s.track.names.lookup name' = some q → q ≠ p := by
      rintro name' q hne hq rfl
      obtain ⟨i', hget', hname'⟩ := hi.entries name' q hq
      rw [hget] at hget'
      cases hget'
      exact hne (hname'.symm.trans hname)
    refine ⟨?_, ?_, ?_, ?_, hi.once⟩
    · simp only [add_to_queue_items]
      exact (fault_free hget).trans hi.fault
    · simp only [add_to_queue_items]
      intro q j hq
      by_cases hqp : q = p
      · subst hqp
        cases (get_free_self s.track.items q).symm.trans hq
      · exact hi.live q j ((get_free_of_ne hqp).symm.trans hq)
    · simp only [add_to_queue_items, add_to_queue_names]
      intro name' q hq
      by_cases hne : name' = name
      · subst hne
        cases (AList.lookup_erase name' s.track.names).symm.trans hq
      · have hold := (AList.lookup_erase_ne hne).symm.trans hq
        obtain ⟨i', hget', hname'⟩ := hi.entries name' q hold
        exact ⟨i', (get_free_of_ne (hother name' q hne hold)).trans hget', hname'⟩
    · simp only [add_to_queue_names]
      intro n name' hmem
      have hne : name' ≠ name := by
        rintro rfl
        exact hn (mem_map_of_mem hmem)
      exact (AList.lookup_erase_ne hne).trans (hi.adding n name' hmem)

/-- The rest of the call, with the item still in the table. -/
theorem inv_creds (creds : Option Errno) (hi : TrackInv s)
    (hst : tracking.step s (.creds n name creds) s') : TrackInv s' := by
  obtain ⟨hmem, rfl⟩ := hst
  have hl := hi.adding n name hmem
  obtain ⟨i, hget, hname⟩ := hi.entries name n hl
  have hother : ∀ n' name', (n', name') ∈ s.adding.erase (n, name) → name' ≠ name := by
    rintro n' name' hmem' rfl
    -- there is one call for a name
    have hperm := (perm_cons_erase hmem).map snd
    have honce := hperm.nodup_iff.mp hi.once
    exact (nodup_cons.mp honce).1 (mem_map.mpr ⟨(n', name'), hmem', rfl⟩)
  have honce : ((s.adding.erase (n, name)).map snd).Nodup :=
    hi.once.sublist (erase_sublist.map snd)
  have hadding : ∀ n' name', (n', name') ∈ s.adding.erase (n, name) →
      s.track.names.lookup name' = some n' :=
    fun n' name' h => hi.adding n' name' (mem_of_mem_erase h)
  unfold sd_bus_track_add_name_creds
  cases creds with
  | none => exact ⟨hi.fault, hi.live, hi.entries, hadding, honce⟩
  | some e =>
    -- the items after the name has left the table
    obtain ⟨t, ht⟩ : ∃ t, t = bus_track_add_to_queue { s.track with
        n_adding := s.track.n_adding - 1, names := s.track.names.erase name } := ⟨_, rfl⟩
    have hitems : t.items = s.track.items := by rw [ht, add_to_queue_items]
    have hnames : t.names = s.track.names.erase name := by rw [ht, add_to_queue_names]
    have hgett : t.items.get n = some i := by rw [hitems, hget]
    have hadding' : ∀ n' name', (n', name') ∈ s.adding.erase (n, name) →
        t.names.lookup name' = some n' := by
      intro n' name' h
      rw [hnames, AList.lookup_erase_ne (hother n' name' h)]
      exact hadding n' name' h
    have hentries : ∀ name' p, t.names.lookup name' = some p →
        p ≠ n ∧ ∃ i, t.items.get p = some i ∧ i.name = name' := by
      intro name' p hp
      rw [hnames] at hp
      by_cases hne : name' = name
      · subst hne
        cases (AList.lookup_erase name' s.track.names).symm.trans hp
      · rw [AList.lookup_erase_ne hne] at hp
        obtain ⟨i', hget', hname'⟩ := hi.entries name' p hp
        refine ⟨?_, i', by rw [hitems, hget'], hname'⟩
        rintro rfl
        rw [hget] at hget'
        cases hget'
        exact hne (hname'.symm.trans hname)
    dsimp only
    rw [← ht]
    have hlive := hi.live n i hget
    rcases Nat.lt_or_ge 1 i.n_ref with hmore | hlast
    · have hunref := item_unref_more hgett (show 2 ≤ i.n_ref by omega)
      have hk : Kept t (track_item_unref n t) :=
        .modify hgett (item_unref_names) hunref rfl (show 1 ≤ i.n_ref - 1 by omega)
      have hit : TrackInv { track := t, adding := s.adding.erase (n, name) } := by
        refine ⟨by rw [hitems]; exact hi.fault, ?_, fun name' p hp => (hentries name' p hp).2,
          hadding', honce⟩
        rw [hitems]
        exact hi.live
      exact hit.kept hk
    · obtain ⟨hfault, hself, hne⟩ := item_unref_last hgett (show i.n_ref = 1 by omega)
      refine ⟨?_, ?_, ?_, ?_, honce⟩
      · exact hfault.trans (by rw [hitems]; exact hi.fault)
      · intro q j hq
        by_cases hqn : q = n
        · rw [hqn, hself] at hq
          cases hq
        · rw [hne q hqn, hitems] at hq
          exact hi.live q j hq
      · intro name' p hp
        rw [item_unref_names] at hp
        obtain ⟨hpn, i', hget', hname'⟩ := hentries name' p hp
        exact ⟨i', (hne p hpn).trans hget', hname'⟩
      · intro n' name' h
        rw [item_unref_names]
        exact hadding' n' name' h

theorem references_eq {i : BusTrackItem} (hl : s.track.names.lookup name = some p)
    (hget : s.track.items.get p = some i) : references s.track name = i.n_ref := by
  unfold references
  rw [hl]
  simp [hget]

/-- `sd_bus_track_remove_name` drops a reference, or the name. -/
theorem remove_name_cases (name : List UInt8) (hi : TrackInv s) :
    (1 < references s.track name ∧ Kept s.track (sd_bus_track_remove_name name s.track).2) ∨
    (references s.track name ≤ 1 ∧
      sd_bus_track_remove_name name s.track = bus_track_remove_name_fully name s.track) := by
  unfold sd_bus_track_remove_name
  cases hl : s.track.names.lookup name with
  | none =>
    unfold references bus_track_remove_name_fully
    simp [hl]
  | some p =>
    obtain ⟨i, hget, _⟩ := hi.entries name p hl
    have hlive := hi.live p i hget
    simp only [touch_of_get hget, hget, references_eq hl hget]
    rw [if_neg (by omega)]
    rcases Nat.lt_or_ge 1 i.n_ref with hmore | hlast
    · left
      rw [if_neg (by omega)]
      exact ⟨hmore, .modify hget item_unref_names (item_unref_more hget hmore) rfl
        (show 1 ≤ i.n_ref - 1 by omega)⟩
    · right
      rw [if_pos hlast]
      exact ⟨hlast, rfl⟩

/-- The callbacks of a match have an item that is live. -/
theorem owner_changed_eq (hm : Matched s.track p name) :
    on_name_owner_changed p name s.track = (bus_track_remove_name_fully name s.track).2 := by
  obtain ⟨i, hget, _⟩ := hm
  unfold on_name_owner_changed
  rw [touch_of_get hget]

theorem install_failed_eq (hm : Matched s.track p name) :
    name_owner_changed_install_callback p name s.track =
      (bus_track_remove_name_fully name s.track).2 := by
  obtain ⟨i, hget, _⟩ := hm
  unfold name_owner_changed_install_callback
  rw [touch_of_get hget]

variable {l : TrackLabel}

theorem inv_step (hi : TrackInv s) (hu : Undisturbed s l) (hst : tracking.step s l s') :
    TrackInv s' := by
  cases l with
  | add_name env name => exact inv_add_name env hi hst
  | creds n name creds => exact inv_creds creds hi hst
  | remove_name name =>
    obtain rfl := hst
    rcases remove_name_cases name hi with ⟨_, hk⟩ | ⟨hle, heq⟩
    · exact hi.kept hk
    · rw [heq]
      exact inv_remove_fully hi (hu name (if_pos hle))
  | owner_changed p name =>
    obtain ⟨hm, rfl⟩ := hst
    rw [owner_changed_eq hm]
    exact inv_remove_fully hi (hu name rfl)
  | install_failed p name =>
    obtain ⟨hm, rfl⟩ := hst
    rw [install_failed_eq hm]
    exact inv_remove_fully hi (hu name rfl)

theorem inv_init (h : tracking.init s) : TrackInv s := by
  obtain ⟨hnames, hitems, _, hadding⟩ := h
  refine ⟨by rw [hitems]; rfl, ?_, ?_, ?_, ?_⟩
  · intro p i hp
    rw [hitems] at hp
    cases hp
  · intro name p hp
    rw [hnames] at hp
    cases hp
  · intro n name hn
    rw [hadding] at hn
    cases hn
  · rw [hadding]
    exact nodup_nil

theorem inv_reachable (hs : Reachable (tracking.restrict Undisturbed) s) : TrackInv s := by
  refine Reachable.invariant (S := tracking.restrict Undisturbed) (fun _ h => inv_init h) ?_ hs
  rintro s l s' hi ⟨hu, hst⟩
  exact inv_step hi hu hst

/-! ## Section 4: Names stay -/

/-- The name has been added and is not being added. -/
def Tracked (name : List UInt8) (s : Tracking) : Prop :=
  name ∈ s.track.names ∧ name ∉ s.adding.map snd

variable {name' : List UInt8}

theorem mem_remove_fully (hne : name ≠ name') (h : name ∈ t.names) :
    name ∈ (bus_track_remove_name_fully name' t).2.names := by
  unfold bus_track_remove_name_fully
  split
  · exact h
  · simp only [add_to_queue_names]
    exact AList.mem_erase.mpr ⟨hne, h⟩

theorem mem_creds (creds : Option Errno) (hne : name ≠ name') (h : name ∈ t.names) :
    name ∈ (sd_bus_track_add_name_creds n name' creds t).2.names := by
  unfold sd_bus_track_add_name_creds
  cases creds with
  | none => exact h
  | some e =>
    simp only [item_unref_names, add_to_queue_names]
    exact AList.mem_erase.mpr ⟨hne, h⟩

theorem tracked_step (hi : TrackInv s) (ht : Tracked name s) (hl : removes s l ≠ some name)
    (hst : tracking.step s l s') : Tracked name s' := by
  obtain ⟨hmem, hadding⟩ := ht
  cases l with
  | add_name env name' =>
    obtain rfl := hst
    rcases add_name_cases env name' hi with ⟨r, hr, _, hk⟩ | ⟨hr, hnone, hnames, _⟩
    · rw [hr]
      refine ⟨?_, hadding⟩
      rw [hk.names]
      exact hmem
    · rw [hr]
      have hne : name ≠ name' := by
        rintro rfl
        exact AList.lookup_eq_none.mp hnone hmem
      constructor
      · show name ∈ (sd_bus_track_add_name env name' s.track).2.names
        rw [hnames]
        exact (AList.mem_insert _).mpr (.inr hmem)
      · show name ∉ name' :: s.adding.map snd
        exact not_mem_cons_of_ne_of_not_mem hne hadding
  | creds n name' creds =>
    obtain ⟨hcall, rfl⟩ := hst
    have hne : name ≠ name' := by
      rintro rfl
      exact hadding (mem_map.mpr ⟨(n, name), hcall, rfl⟩)
    exact ⟨mem_creds creds hne hmem, fun h =>
      hadding (List.Sublist.subset (erase_sublist.map snd) h)⟩
  | remove_name name' =>
    obtain rfl := hst
    rcases remove_name_cases name' hi with ⟨_, hk⟩ | ⟨hle, heq⟩
    · refine ⟨?_, hadding⟩
      rw [hk.names]
      exact hmem
    · rw [heq]
      have hne : name ≠ name' := by
        rintro rfl
        exact hl (if_pos hle)
      exact ⟨mem_remove_fully hne hmem, hadding⟩
  | owner_changed p name' =>
    obtain ⟨hm, rfl⟩ := hst
    exact ⟨mem_remove_fully (fun hne => hl (congrArg some hne.symm)) hmem, hadding⟩
  | install_failed p name' =>
    obtain ⟨hm, rfl⟩ := hst
    exact ⟨mem_remove_fully (fun hne => hl (congrArg some hne.symm)) hmem, hadding⟩

/-- A positive value comes from a call that has its item in the table. -/
theorem tracked_returned (hi : TrackInv s) {v : Nat} (hret : add_returns s l = some (name, .ok v))
    (hv : 0 < v) (hst : tracking.step s l s') : Tracked name s' := by
  cases l with
  | add_name env name' =>
    dsimp only [add_returns] at hret
    rcases add_name_cases env name' hi with ⟨r, hr, hzero, _⟩ | ⟨hr, _⟩
    · rw [hr] at hret
      obtain ⟨_, rfl⟩ := mk.inj (Option.some.inj hret)
      exact absurd (hzero v rfl) (by omega)
    · rw [hr] at hret
      cases hret
  | creds n name' creds =>
    obtain ⟨hcall, rfl⟩ := hst
    obtain ⟨rfl, hok⟩ := mk.inj (Option.some.inj hret)
    cases creds with
    | some e => cases hok
    | none =>
      constructor
      · show name' ∈ s.track.names
        rw [← AList.lookup_isSome, hi.adding n name' hcall]
        rfl
      · have hperm := (perm_cons_erase hcall).map snd
        exact (nodup_cons.mp (hperm.nodup_iff.mp hi.once)).1
  | remove_name _ => cases hret
  | owner_changed _ _ => cases hret
  | install_failed _ _ => cases hret

/-! ## Section 5: What goes wrong -/

end calls

/-- **Without such a step no item is used after it has been freed, and a name
    that was added stays.** -/
theorem track_items_safe {s : Tracking} (hs : Reachable (tracking.restrict Undisturbed) s) :
    s.track.items.fault = false ∧
    ∀ l s' name v, (tracking.restrict Undisturbed).step s l s' →
      add_returns s l = some (name, .ok v) → 0 < v →
      ∀ ls s'', Run (tracking.restrict fun s l => Undisturbed s l ∧ removes s l ≠ some name) s' ls s'' →
        name ∈ s''.track.names := by
  have hi := inv_reachable hs
  refine ⟨hi.fault, ?_⟩
  rintro l s' name v ⟨hu, hst⟩ hret hv ls s'' hr
  have ht : TrackInv s' ∧ Tracked name s' := ⟨inv_step hi hu hst, tracked_returned hi hret hv hst⟩
  have hstep : ∀ s1 l1 s2, TrackInv s1 ∧ Tracked name s1 →
      (tracking.restrict fun s l => Undisturbed s l ∧ removes s l ≠ some name).step s1 l1 s2 →
      TrackInv s2 ∧ Tracked name s2 := by
    rintro s1 l1 s2 ⟨hi1, ht1⟩ ⟨⟨hu1, hl1⟩, hst1⟩
    exact ⟨inv_step hi1 hu1 hst1, tracked_step hi1 ht1 hl1 hst1⟩
  exact (hr.invariant hstep ht).2.1

/-! ### A name and its owner -/

/-- The name of a peer. -/
def peer : List UInt8 := ascii ":1.5"

/-- A new track object, on a bus where nothing fails. -/
def fresh_tracking : Tracking where
  track := ⟨0, true, ∅, true, true, false, false, .empty⟩
  adding := []

/-- The name is being added. -/
def peer_adding : Tracking where
  track := (sd_bus_track_add_name ⟨true, true, true, none, true⟩ peer fresh_tracking.track).2
  adding := [(0, peer)]

theorem peer_adding_step :
    tracking.step fresh_tracking (.add_name ⟨true, true, true, none, true⟩ peer) peer_adding := by
  rfl

theorem fresh_tracking_init : tracking.init fresh_tracking := ⟨rfl, rfl, rfl, rfl⟩

/-- The name has been added. -/
def peer_added : Tracking where
  track := (sd_bus_track_add_name_creds 0 peer none peer_adding.track).2
  adding := peer_adding.adding.erase (0, peer)

theorem track_items_safe_example : peer ∈ peer_added.track.names := by
  have hs : Reachable (tracking.restrict Undisturbed) peer_adding :=
    .step (.init fresh_tracking_init) ⟨fun _ h => (by cases h), peer_adding_step⟩
  exact (track_items_safe hs).2 (.creds 0 peer none) peer_added peer 1
    ⟨fun _ h => (by cases h), mem_singleton.mpr rfl, rfl⟩ rfl Nat.one_pos [] peer_added (.nil _)

/-- The owner goes while the name is being added, and the item with it. -/
def peer_gone : Tracking :=
  { peer_adding with track := on_name_owner_changed 0 peer peer_adding.track }

theorem owner_gone_while_adding :
    ¬ ∀ s, Reachable tracking s → s.track.items.fault = false := by
  intro hall
  have hmatched : Matched peer_adding.track 0 peer :=
    ⟨⟨1, peer, true⟩, by decide +kernel, rfl, rfl⟩
  have hs : Reachable tracking peer_gone :=
    .step (.step (.init fresh_tracking_init) peer_adding_step) (a := .owner_changed 0 peer)
      ⟨hmatched, rfl⟩
  have hcreds := hall _ (.step hs (a := .creds 0 peer (some Errno.ENXIO))
    ⟨mem_singleton.mpr rfl, rfl⟩)
  revert hcreds
  decide +kernel

end SdCompat.Track
