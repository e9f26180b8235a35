import SdCompat.SdVarlink.ClientCalls

/-! # The state machine of a Varlink connection (sd-varlink.c)

    The assertions of the server side are about the places of a call: what
    states there are while `varlink_dispatch_method` runs its callback and while
    it does not, and that a reply is held back only for a call with the `more`
    flag and a sentinel. They hold whatever messages arrive, but for one: a
    callback that processes its own connection may return with the connection
    about to be disconnected.
-/

open Transition SdCompat.Json

namespace SdCompat.Varlink

open VarlinkState ServerLink ClientLink

namespace ServerLink

variable {R : Type} {v v' : ServerLink R}

/-! ## Section 1: The places of a call -/

/-- The states inside `varlink_dispatch_method`, and in the method callback. -/
def Inner (state : VarlinkState) : Prop :=
  state.WANTS_REPLY = true ∨ state = .PROCESSING_METHOD_ONEWAY ∨ state = .PROCESSED_METHOD ∨
    state = .PROCESSED_METHOD_UPGRADE ∨ state = .PENDING_DISCONNECT ∨ state = .DISCONNECTED

/-- The states outside of it. -/
def Outer (state : VarlinkState) : Prop :=
  state.pending = true ∨ state = .IDLE_SERVER ∨ state = .UPGRADING ∨
    state = .PENDING_DISCONNECT ∨ state = .DISCONNECTED

/-- The message that is looked at is a call with the `more` flag. -/
def HasMore (v : ServerLink R) : Prop :=
  ∃ m method call, v.current = some m ∧ read_call m = some (method, call) ∧ call.flags.more = true

/-- What holds of a call wherever it is. -/
structure Core (v : ServerLink R) : Prop where
  crashed : v.crashed = false
  sentinel : v.previous.isSome → v.sentinel.isSome
  held : v.previous.isSome →
    v.state.more = true ∨ v.state = .IDLE_SERVER ∨ v.state = .PENDING_DISCONNECT
  message : v.state.more = true ∨ v.previous.isSome → v.HasMore

/-- What holds of a connection at any time. -/
structure Safe (v : ServerLink R) : Prop where
  core : v.Core
  place : (v.frames = 0 ∧ Outer v.state) ∨ (v.frames = 1 ∧ Inner v.state)

/-- The condition on steps: no callback returns while the connection is about to
    be disconnected, and the check of a call's parameters goes through. -/
def Undisturbed [Double R] [DoubleCast R] (v : ServerLink R) : ServerLabel R → Prop
  | .callback_return .. => v.state ≠ .PENDING_DISCONNECT
  | .dispatch server _ =>
    ∀ symbol parameters flags, (varlink_idl_validate_method_call server.symbols (some symbol)
      (some (parameters : Variant R)) flags).1 ≠ .abort
  | _ => True

/-- A step within a place. -/
structure Kept (v v' : ServerLink R) : Prop where
  core : v'.Core
  frames : v'.frames = v.frames
  inner : Inner v.state → Inner v'.state
  outer : Outer v.state → Outer v'.state
  calm : v.state ≠ .PENDING_DISCONNECT → v'.state ≠ .PENDING_DISCONNECT

theorem Core.kept (h : v.Core) : v.Kept v := ⟨h, rfl, id, id, id⟩

theorem Kept.trans {v'' : ServerLink R} (h : v.Kept v') (h' : v'.Kept v'') : v.Kept v'' :=
  ⟨h'.core, h'.frames.trans h.frames, fun hs => h'.inner (h.inner hs),
    fun hs => h'.outer (h.outer hs), fun hs => h'.calm (h.calm hs)⟩

theorem Kept.safe (h : v.Safe) (hk : v.Kept v') : v'.Safe := by
  refine ⟨hk.core, ?_⟩
  rcases h.place with ⟨hf, hs⟩ | ⟨hf, hs⟩
  · exact .inl ⟨hk.frames.trans hf, hk.outer hs⟩
  · exact .inr ⟨hk.frames.trans hf, hk.inner hs⟩

/-- Nothing is held back in a state in which there is no reply to hold back. -/
theorem Core.nothing_held (h : v.Core) (hmore : v.state.more = false)
    (hidle : v.state ≠ .IDLE_SERVER) (hgone : v.state ≠ .PENDING_DISCONNECT) :
    v.previous = none := by
  cases hp : v.previous with
  | none => rfl
  | some continues =>
    rcases h.held (by rw [hp]; rfl) with hs | hs | hs
    · rw [hmore] at hs; cases hs
    · exact absurd hs hidle
    · exact absurd hs hgone

/-- A connection without a held back reply. -/
theorem Core.of_none (hcrashed : v.crashed = false) (hprev : v.previous = none)
    (hmessage : v.state.more = true → v.HasMore) : v.Core := by
  refine ⟨hcrashed, fun hp => ?_, fun hp => ?_, fun hp => ?_⟩
  · rw [hprev] at hp; cases hp
  · rw [hprev] at hp; cases hp
  · rcases hp with hp | hp
    · exact hmessage hp
    · rw [hprev] at hp; cases hp

section
variable (h : v.Core)
include h

theorem Core.close : v.Kept v.sd_varlink_close := by
  unfold sd_varlink_close
  split
  · exact h.kept
  · exact ⟨.of_none h.crashed rfl nofun, rfl, fun _ => .inr (.inr (.inr (.inr (.inr rfl)))),
      fun _ => .inr (.inr (.inr (.inr rfl))), fun _ => nofun⟩

/-! ## Section 2: Replies -/

/-- The last reply is sent. -/
theorem Core.processed (hprev : v.previous = none)
    (hs : v.state.WANTS_REPLY = true ∨ v.state.pending = true) (continues : Bool) :
    v.Kept (v.enqueue continues).processed := by
  unfold ServerLink.processed
  by_cases hp : v.state.pending = true
  · rw [if_pos (show (v.enqueue continues).state.pending = true from hp)]
    refine ⟨.of_none h.crashed rfl nofun, rfl, fun hin => ?_, fun _ => .inr (.inl rfl),
      fun _ => nofun⟩
    -- a pending call is outside of its callback
    rcases hin with hw | hw | hw | hw | hw | hw
    · rw [not_pending hw] at hp; cases hp
    · rw [hw] at hp; cases hp
    · rw [hw] at hp; cases hp
    · rw [hw] at hp; cases hp
    · rw [hw] at hp; cases hp
    · rw [hw] at hp; cases hp
  · rw [if_neg (show ¬ (v.enqueue continues).state.pending = true from hp)]
    have hw := hs.resolve_right hp
    refine ⟨.of_none h.crashed hprev nofun, rfl, fun _ => .inr (.inr (.inl rfl)), fun hout => ?_,
      fun _ => nofun⟩
    rcases hout with hs | hs | hs | hs | hs
    · exact absurd hs hp
    · rw [hs] at hw; cases hw
    · rw [hs] at hw; cases hw
    · rw [hs] at hw; cases hw
    · rw [hs] at hw; cases hw

/-- What is held back is sent, or stays. -/
theorem Core.flush_previous (env : ReplyEnv) :
    v.Kept (v.flush_previous env).1 ∧ (v.flush_previous env).1.state = v.state ∧
      (v.flush_previous env).1.sentinel = v.sentinel ∧
      ∀ n, (v.flush_previous env).2 = .ok n → (v.flush_previous env).1.previous = none := by
  unfold ServerLink.flush_previous
  split
  · next hp => exact ⟨h.kept, rfl, rfl, fun _ _ => hp⟩
  · next c hp =>
    have hsome : v.previous.isSome := by rw [hp]; rfl
    split
    · exact ⟨h.kept, rfl, rfl, nofun⟩
    split
    · refine ⟨⟨⟨h.crashed, fun _ => h.sentinel hsome, fun _ => h.held hsome,
        fun _ => h.message (.inr hsome)⟩, rfl, id, id, id⟩, rfl, rfl, nofun⟩
    · refine ⟨⟨.of_none h.crashed rfl fun hm => h.message (.inl hm), rfl, id, id, id⟩, rfl, rfl,
        fun _ _ => rfl⟩

theorem Core.varlink_reply_internal (env : ReplyEnv) : v.Kept (v.varlink_reply_internal env).1 := by
  unfold ServerLink.varlink_reply_internal
  split
  · exact h.kept
  split
  · exact h.kept
  next hs =>
  split
  · exact h.kept
  split
  · next hmore =>
    obtain ⟨hkept, hstate, hsent, _⟩ := h.flush_previous env
    split
    · next w n heq =>
      rw [heq] at hkept hstate hsent
      refine hkept.trans ⟨⟨hkept.core.crashed, fun _ => ?_, fun _ => .inl ?_, fun _ =>
        hkept.core.message (.inl ?_)⟩, rfl, id, id, id⟩
      · rw [show w.sentinel = v.sentinel from hsent]; exact hmore.2
      · rw [show w.state = v.state from hstate]; exact hmore.1
      · rw [show w.state = v.state from hstate]; exact hmore.1
    · next w r heq =>
      rw [heq] at hkept
      exact hkept
  next hmore =>
  split
  · exact h.kept
  · have hs : v.state.WANTS_REPLY = true ∨ v.state.pending = true := by
      by_contra hno
      exact hs ⟨fun hw => hno (.inl hw), fun hp => hno (.inr hp)⟩
    refine h.processed ?_ hs false
    -- a reply is held back only with a sentinel and the `more` flag
    cases hp : v.previous with
    | none => rfl
    | some c =>
      have hsome : v.previous.isSome := by rw [hp]; rfl
      rcases h.held hsome with hm | hi | hd
      · exact absurd ⟨hm, h.sentinel hsome⟩ hmore
      · rw [hi] at hs; rcases hs with hs | hs <;> cases hs
      · rw [hd] at hs; rcases hs with hs | hs <;> cases hs

theorem Core.sd_varlink_error (env : ReplyEnv) (e : Errno) :
    v.Kept (v.sd_varlink_error env e).1 := by
  unfold ServerLink.sd_varlink_error
  split
  · exact h.kept
  split
  · exact h.kept
  next hs =>
  obtain ⟨hkept, hstate, _, hnone⟩ := h.flush_previous env
  split
  · next w n heq =>
    rw [heq] at hkept hstate hnone
    split
    · exact hkept
    split
    · exact hkept
    · refine hkept.trans (hkept.core.processed (hnone n rfl) ?_ false)
      rw [show w.state = v.state from hstate]
      by_contra hno
      exact hs ⟨fun hw => hno (.inl hw), fun hp => hno (.inr hp)⟩
  · next w r _ heq =>
    rw [heq] at hkept
    exact hkept

theorem Core.sd_varlink_errorb (build : Bool) (env : ReplyEnv) (e : Errno) :
    v.Kept (v.sd_varlink_errorb build env e).1 := by
  unfold ServerLink.sd_varlink_errorb
  split
  · exact h.kept
  · exact h.sd_varlink_error env e

/-- Without a sentinel nothing is held back. -/
theorem Core.sd_varlink_notify (env : ReplyEnv) : v.Kept (v.sd_varlink_notify env).1 := by
  unfold ServerLink.sd_varlink_notify
  split
  · exact h.kept
  next hsent =>
  split
  · next hp => exact absurd (h.sentinel hp) hsent
  split
  · exact h.kept
  split
  · exact h.sd_varlink_error env _
  split
  · exact h.kept
  split
  · exact h.kept
  split
  · exact h.kept
  · exact ⟨⟨h.crashed, h.sentinel, h.held, h.message⟩, rfl, id, id, id⟩

theorem Core.sd_varlink_set_sentinel (env : ReplyEnv) (sentinel : Sentinel) :
    v.Kept (v.sd_varlink_set_sentinel env sentinel).1 := by
  unfold ServerLink.sd_varlink_set_sentinel
  split
  · exact h.kept
  split
  · split
    · exact h.kept
    · exact ⟨⟨h.crashed, fun _ => rfl, h.held, h.message⟩, rfl, id, id, id⟩
  · exact h.kept

theorem Core.sd_varlink_respond_and_upgrade (env : ReplyEnv) (buffered : Bool) :
    v.Kept (v.sd_varlink_respond_and_upgrade env buffered).1 := by
  unfold ServerLink.sd_varlink_respond_and_upgrade
  split
  · exact h.kept
  split
  · exact h.kept
  split
  · exact h.kept
  next hstate =>
  split
  · exact h.kept
  split
  · exact h.kept
  split
  · exact h.kept
  split
  · next hs =>
    refine ⟨.of_none h.crashed rfl nofun, rfl, fun hin => ?_, fun _ => .inr (.inr (.inl rfl)),
      fun _ => nofun⟩
    rw [hs] at hin
    rcases hin with hw | hw | hw | hw | hw | hw <;> cases hw
  · next hpending =>
    have hs : v.state = .PROCESSING_METHOD_UPGRADE := by
      by_contra hs
      exact hstate ⟨hs, hpending⟩
    have hprev := h.nothing_held (by rw [hs]; rfl) (by rw [hs]; nofun) (by rw [hs]; nofun)
    refine ⟨.of_none h.crashed hprev nofun, rfl, fun _ => .inr (.inr (.inr (.inl rfl))),
      fun hout => ?_, fun _ => nofun⟩
    rw [hs] at hout
    rcases hout with hp | hp | hp | hp | hp <;> cases hp

theorem Core.sd_varlink_reply_and_upgrade (env : ReplyEnv) (buffered : Bool) :
    v.Kept (v.sd_varlink_reply_and_upgrade env buffered).1 := by
  have hkept := h.sd_varlink_respond_and_upgrade env buffered
  unfold ServerLink.sd_varlink_reply_and_upgrade
  split
  · next w n heq =>
    rw [heq] at hkept
    exact hkept.trans hkept.core.close
  · next w r heq =>
    rw [heq] at hkept
    exact hkept

theorem Core.sd_varlink_dispatch_again : v.Kept v.sd_varlink_dispatch_again.1 := by
  unfold ServerLink.sd_varlink_dispatch_again
  split
  · exact h.kept
  split
  · exact h.kept
  next hp =>
  refine ⟨⟨h.crashed, h.sentinel, fun _ => .inr (.inl rfl), fun hm => ?_⟩, rfl, fun hin => ?_,
    fun _ => .inr (.inl rfl), fun _ => nofun⟩
  · rcases hm with hm | hm
    · cases hm
    · exact h.message (.inr hm)
  · have hp := not_not.mp hp
    rcases hin with hw | hw | hw | hw | hw | hw
    · rw [not_pending hw] at hp; cases hp
    · rw [hw] at hp; cases hp
    · rw [hw] at hp; cases hp
    · rw [hw] at hp; cases hp
    · rw [hw] at hp; cases hp
    · rw [hw] at hp; cases hp

/-- With a sentinel, after the callback. -/
theorem Core.varlink_dispatch_sentinel (env : ReplyEnv) (hsent : v.sentinel.isSome)
    (hs : v.state.WANTS_REPLY = true ∨ v.state.pending = true) :
    v.Kept (v.varlink_dispatch_sentinel env).1 := by
  unfold ServerLink.varlink_dispatch_sentinel
  split
  · next continues hp =>
    split
    · exact h.kept
    have hmore : v.state.more = true := by
      rcases h.held (by rw [hp]; rfl) with hm | hi | hd
      · exact hm
      · rw [hi] at hs; rcases hs with hs | hs <;> cases hs
      · rw [hd] at hs; rcases hs with hs | hs <;> cases hs
    have hcore : ({ v with previous := none } : ServerLink R).Core :=
      .of_none h.crashed rfl fun _ => h.message (.inl hmore)
    have hkept := hcore.processed rfl hs continues
    -- in a state with `more` this is how any last reply is dealt with
    have hstate : v.state = .PROCESSING_METHOD_MORE ∨ v.state = .PENDING_METHOD_MORE := by
      cases he : v.state <;> simp_all [more]
    rcases hstate with he | he
    · simp only [enqueue, he, pending] at hkept ⊢
      exact ⟨hkept.core, hkept.frames, by rw [he]; exact hkept.inner, by rw [he]; exact hkept.outer,
        fun _ h => by cases h⟩
    · simp only [enqueue, he, pending] at hkept ⊢
      exact ⟨hkept.core, hkept.frames, by rw [he]; exact hkept.inner, by rw [he]; exact hkept.outer,
        fun _ h => by cases h⟩
  · next hp =>
    have hcore : ({ v with sentinel := none } : ServerLink R).Core :=
      .of_none h.crashed hp fun hm => h.message (.inl hm)
    have hfrom : v.Kept { v with sentinel := none } := ⟨hcore, rfl, id, id, id⟩
    split
    · next he => rw [he] at hsent; cases hsent
    · exact hfrom.trans (hcore.varlink_reply_internal env)
    · next id _ =>
      have hkept := hfrom.trans (hcore.sd_varlink_error env (sd_varlink_error_to_errno id))
      dsimp only
      split
      · exact hkept
      · exact hkept

/-! ## Section 3: Dispatching -/

/-- The end of `varlink_dispatch_method`. -/
theorem Core.settle (hin : Inner v.state) (hs : v.state ≠ .PENDING_DISCONNECT) :
    v.settle.Core ∧ v.settle.frames = v.frames ∧ Outer v.settle.state := by
  unfold ServerLink.settle
  split
  · exact ⟨.of_none h.crashed rfl nofun, rfl, .inr (.inl rfl)⟩
  · exact ⟨.of_none h.crashed rfl nofun, rfl, .inr (.inl rfl)⟩
  · next he =>
    have hprev := h.nothing_held (by rw [he]; rfl) (by rw [he]; nofun) hs
    exact ⟨.of_none h.crashed hprev nofun, rfl, .inl rfl⟩
  · next he =>
    exact ⟨⟨h.crashed, h.sentinel, fun _ => .inl rfl, fun _ => h.message (.inl (by rw [he]; rfl))⟩,
      rfl, .inl rfl⟩
  · next he =>
    have hprev := h.nothing_held (by rw [he]; rfl) (by rw [he]; nofun) hs
    exact ⟨.of_none h.crashed hprev nofun, rfl, .inl rfl⟩
  · exact ⟨.of_none h.crashed rfl nofun, rfl, .inr (.inr (.inl rfl))⟩
  · next he => exact ⟨h, rfl, .inr (.inr (.inr (.inr he)))⟩
  · -- no other state is one of a callback
    rcases hin with hw | hw | hw | hw | hw | hw
    · cases he : v.state <;> simp_all [WANTS_REPLY]
    · simp_all
    · simp_all
    · simp_all
    · exact absurd hw hs
    · simp_all

/-- What `varlink_dispatch_method` makes of a connection. -/
def Settled (v v' : ServerLink R) : Prop := v'.Core ∧ v'.frames = v.frames ∧ Outer v'.state

theorem Core.fail : v.Settled v.fail := by
  obtain ⟨hcore, hf, _, _⟩ := h.close
  refine ⟨hcore, hf, .inr (.inr (.inr (.inr ?_)))⟩
  unfold ServerLink.fail ServerLink.sd_varlink_close
  split
  · next hs => exact hs
  · rfl

end

theorem Kept.settle_unless {x : ServerLink R × Outcome Nat} (h : v.Kept x.1) (hin : Inner v.state)
    (hs : v.state ≠ .PENDING_DISCONNECT) : v.Settled (settle_unless x) := by
  unfold ServerLink.settle_unless
  split
  · obtain ⟨hcore, hf, hout⟩ := h.core.fail
    exact ⟨hcore, hf.trans h.frames, hout⟩
  · obtain ⟨hcore, hf, hout⟩ := h.core.settle (h.inner hin) (h.calm hs)
    exact ⟨hcore, hf.trans h.frames, hout⟩

/-- After the callback. -/
theorem Core.callback_returned (h : v.Core) (hin : Inner v.state)
    (hs : v.state ≠ .PENDING_DISCONNECT) (build : Bool) (env : ReplyEnv) (r : Option Errno)
    (bare : Bool) : v.Settled (v.callback_returned build env r bare) := by
  unfold ServerLink.callback_returned
  split
  · next hw =>
    split
    · next e => exact (h.sd_varlink_errorb build env e).settle_unless hin hs
    split
    · next hsent => exact (h.varlink_dispatch_sentinel env hsent (.inl hw)).settle_unless hin hs
    next hsent =>
    split
    · next hp => exact absurd (h.sentinel hp) hsent
    split
    · exact h.fail
    · exact h.settle hin hs
  · next hw =>
    have hprev : v.previous = none := by
      refine h.nothing_held ?_ ?_ hs
      · cases he : v.state <;> simp_all [Inner, more]
      · intro he
        rw [he] at hin
        rcases hin with hw | hw | hw | hw | hw | hw <;> cases hw
    rw [hprev]
    exact h.settle hin hs

/-- The callback of a fiber has returned. -/
theorem Core.fiber_returned (h : v.Core) (build : Bool) (env : ReplyEnv) (r : Option Errno)
    (bare : Bool) : v.Kept (v.fiber_returned build env r bare) := by
  unfold ServerLink.fiber_returned
  split
  · exact h.kept
  next hp =>
  have hp := not_not.mp hp
  split
  · next e =>
    have hkept := h.sd_varlink_errorb build env e
    dsimp only
    split
    · exact hkept.trans hkept.core.close
    · exact hkept
  split
  · next hsent =>
    have hkept := h.varlink_dispatch_sentinel env hsent (.inr hp)
    dsimp only
    split
    · exact hkept.trans hkept.core.close
    · exact hkept
  split
  · exact h.close
  · exact h.kept

/-- A state in which a call is processed is one of its callback. -/
theorem processing_inner (flags : MethodFlags) :
    Inner (processing flags) ∧ processing flags ≠ .PENDING_DISCONNECT := by
  unfold processing
  split
  · exact ⟨.inl rfl, nofun⟩
  split
  · exact ⟨.inr (.inl rfl), nofun⟩
  split
  · exact ⟨.inl rfl, nofun⟩
  · exact ⟨.inl rfl, nofun⟩

theorem more_iff_processing {flags : MethodFlags} :
    (processing flags).more = true ↔ flags.more = true := by
  unfold processing
  cases flags.more <;> cases flags.oneway <;> cases flags.upgrade <;> simp [more]

/-- A call is dispatched, anew or again. -/
theorem Core.begin_call (h : v.Core) {m : Variant R} {method : List UInt8} {call : MethodCall R}
    (hm : v.current = some m) (hread : read_call m = some (method, call)) :
    (v.begin_call call.flags).Core ∧ (v.begin_call call.flags).frames = v.frames ∧
      (v.begin_call call.flags).state = processing call.flags := by
  -- with a reply held back it is the same message, with the same flag
  have hmore : v.previous.isSome → call.flags.more = true := by
    intro hp
    obtain ⟨m', method', call', hm', hread', hmore⟩ := h.message (.inr hp)
    obtain rfl : m = m' := Option.some.inj (hm.symm.trans hm')
    rw [hread] at hread'
    rw [(Prod.mk.inj (Option.some.inj hread')).2]
    exact hmore
  have hcore : ∀ w : ServerLink R, w.crashed = v.crashed → w.previous = v.previous →
      w.sentinel = v.sentinel → w.current = v.current → w.state = processing call.flags →
      w.Core := by
    intro w hc hp hsent hcur hs
    refine ⟨hc.trans h.crashed, fun hw => ?_, fun hw => .inl ?_, fun hw => ?_⟩
    · rw [hp] at hw
      rw [hsent]
      exact h.sentinel hw
    · rw [hp] at hw
      rw [hs]
      exact more_iff_processing.mpr (hmore hw)
    · refine ⟨m, method, call, hcur.trans hm, hread, ?_⟩
      rcases hw with hw | hw
      · rw [hs] at hw
        exact more_iff_processing.mp hw
      · rw [hp] at hw
        exact hmore hw
  unfold ServerLink.begin_call
  split
  · exact ⟨hcore _ rfl rfl rfl rfl rfl, rfl, rfl⟩
  · exact ⟨hcore _ rfl rfl rfl rfl rfl, rfl, rfl⟩

section dispatch
variable [Double R] [DoubleCast R]

variable {flags : MethodFlags}

/-- The callback is called from outside of any other. -/
theorem Core.call_callback (h : v.Core) (hf : v.frames = 0) (hs : v.state = processing flags)
    (server : MethodServer) (env : DispatchEnv) (is_fiber : Bool) :
    (v.call_callback server env is_fiber).Safe := by
  obtain ⟨hin, hcalm⟩ := processing_inner flags
  rw [← hs] at hin hcalm
  unfold ServerLink.call_callback
  split
  · split
    · obtain ⟨hcore, hf', hout⟩ := h.callback_returned hin hcalm env.build env.reply (some .EDEADLK) false
      exact ⟨hcore, .inl ⟨hf'.trans hf, hout⟩⟩
    split
    · obtain ⟨hcore, hf', hout⟩ :=
        h.callback_returned hin hcalm env.build env.reply (some env.reply.errno) false
      exact ⟨hcore, .inl ⟨hf'.trans hf, hout⟩⟩
    · have hcore : ({ v with fibers := v.fibers + 1, invoked := true } : ServerLink R).Core :=
        ⟨h.crashed, h.sentinel, h.held, h.message⟩
      obtain ⟨hcore, hf', hout⟩ := hcore.callback_returned hin hcalm env.build env.reply none false
      exact ⟨hcore, .inl ⟨hf'.trans hf, hout⟩⟩
  · refine ⟨⟨h.crashed, h.sentinel, h.held, h.message⟩, .inr ⟨?_, hin⟩⟩
    rw [hf]

theorem Core.dispatch_call (h : v.Core) (hf : v.frames = 0) (hs : v.state = processing flags)
    (server : MethodServer) (env : DispatchEnv)
    (hok : ∀ symbol parameters flags, (varlink_idl_validate_method_call server.symbols (some symbol) (some (parameters : Variant R)) flags).1 ≠ .abort)
    (method : List UInt8) (parameters : Variant R) :
    (v.dispatch_call server env method parameters flags).Safe := by
  obtain ⟨hin, hcalm⟩ := processing_inner flags
  rw [← hs] at hin hcalm
  have hsafe : ∀ {w : ServerLink R}, v.Settled w → w.Safe := fun ⟨hcore, hf', hout⟩ =>
    ⟨hcore, .inl ⟨hf'.trans hf, hout⟩⟩
  unfold ServerLink.dispatch_call
  split
  · split
    · exact hsafe ((h.sd_varlink_errorb env.build env.reply _).settle_unless hin hcalm)
    · exact hsafe (h.settle hin hcalm)
  · next is_fiber _ =>
    split
    · exact h.call_callback hf hs server env is_fiber
    · next symbol _ =>
      split
      · exact h.call_callback hf hs server env is_fiber
      · next habort => exact absurd habort (hok symbol parameters flags)
      · split
        · exact hsafe ((h.sd_varlink_error env.reply .EBADE).settle_unless hin hcalm)
        · exact hsafe (h.settle hin hcalm)
      · split
        · exact hsafe ((h.sd_varlink_errorb env.build env.reply .EINVAL).settle_unless hin hcalm)
        · exact hsafe (h.settle hin hcalm)

theorem Safe.dispatch (h : v.Safe) (hidle : v.state = .IDLE_SERVER) (server : MethodServer)
    (env : DispatchEnv) (hok : v.Undisturbed (.dispatch server env)) :
    (v.varlink_dispatch_method server env).Safe := by
  have hf : v.frames = 0 := by
    rcases h.place with ⟨hf, _⟩ | ⟨_, hin⟩
    · exact hf
    · rw [hidle] at hin
      rcases hin with hw | hw | hw | hw | hw | hw <;> cases hw
  unfold varlink_dispatch_method
  split
  · exact h
  next m hm =>
  split
  · exact h.core.close.safe h
  next method call hread =>
  split
  · exact h.core.close.safe h
  · obtain ⟨hcore, hf', hs⟩ := h.core.begin_call hm hread
    exact hcore.dispatch_call (hf'.trans hf) hs server env hok method _

/-! ## Section 4: Runs -/

theorem Safe.accepted : (accepted : ServerLink R).Safe :=
  ⟨.of_none rfl rfl nofun, .inl ⟨rfl, .inr (.inl rfl)⟩⟩

/-- A disconnect is noticed. -/
theorem Safe.pending_disconnect (h : v.Safe) :
    ({ v with state := .PENDING_DISCONNECT } : ServerLink R).Safe := by
  refine ⟨⟨h.core.crashed, h.core.sentinel, fun _ => .inr (.inr rfl), fun hm => ?_⟩, ?_⟩
  · rcases hm with hm | hm
    · cases hm
    · exact h.core.message (.inr hm)
  · rcases h.place with ⟨hf, _⟩ | ⟨hf, _⟩
    · exact .inl ⟨hf, .inr (.inr (.inr (.inl rfl)))⟩
    · exact .inr ⟨hf, .inr (.inr (.inr (.inr (.inl rfl))))⟩

/-- A message is parsed, while there is none. -/
theorem Safe.receive (h : v.Safe) (hcurrent : v.current = none) (m : Variant R) :
    ({ v with current := some m } : ServerLink R).Safe := by
  refine ⟨⟨h.core.crashed, h.core.sentinel, h.core.held, fun hm => ?_⟩, h.place⟩
  obtain ⟨_, _, _, hcur, _⟩ := h.core.message hm
  rw [hcurrent] at hcur
  cases hcur

theorem Safe.callback_return (h : v.Safe) (hframes : v.frames ≠ 0)
    (hs : v.state ≠ .PENDING_DISCONNECT) (build : Bool) (env : ReplyEnv) (r : Option Errno)
    (bare : Bool) :
    ({ v with frames := v.frames - 1 }.callback_returned build env r bare).Safe := by
  obtain ⟨hf, hin⟩ := h.place.resolve_left fun hp => hframes hp.1
  have hcore : ({ v with frames := v.frames - 1 } : ServerLink R).Core :=
    ⟨h.core.crashed, h.core.sentinel, h.core.held, h.core.message⟩
  obtain ⟨hcore, hf', hout⟩ := hcore.callback_returned hin hs build env r bare
  refine ⟨hcore, .inl ⟨hf'.trans ?_, hout⟩⟩
  rw [hf]

theorem Safe.step (h : v.Safe) {label : ServerLabel R} (hok : v.Undisturbed label)
    (hst : v.step label = some v') : v'.Safe := by
  have hc := h.core
  unfold ServerLink.step at hst
  rw [if_neg (by rw [hc.crashed]; nofun)] at hst
  cases label with
  | receive m =>
    dsimp only at hst
    split at hst
    · cases hst
    next hguard =>
    cases hst
    exact h.receive (by simpa using fun hm => hguard (.inr hm)) m
  | dispatch server env =>
    dsimp only at hst
    split at hst
    · cases hst
    next hguard =>
    cases hst
    have hidle : v.state = .IDLE_SERVER := by
      by_contra hs
      exact hguard (.inl hs)
    exact h.dispatch hidle server env hok
  | callback_return build env r bare =>
    dsimp only at hst
    split at hst
    · cases hst
    next hframes =>
    cases hst
    exact h.callback_return hframes hok build env r bare
  | fiber_return build env r bare =>
    dsimp only at hst
    split at hst
    · cases hst
    cases hst
    have hsafe : ({ v with fibers := v.fibers - 1 } : ServerLink R).Safe :=
      ⟨⟨hc.crashed, hc.sentinel, hc.held, hc.message⟩, h.place⟩
    exact (hsafe.core.fiber_returned build env r bare).safe hsafe
  | reply env =>
    cases hst
    exact (hc.varlink_reply_internal env).safe h
  | error env e =>
    cases hst
    exact (hc.sd_varlink_error env e).safe h
  | notify env =>
    cases hst
    exact (hc.sd_varlink_notify env).safe h
  | set_sentinel env sentinel =>
    cases hst
    exact (hc.sd_varlink_set_sentinel env sentinel).safe h
  | respond_and_upgrade env buffered =>
    cases hst
    exact (hc.sd_varlink_respond_and_upgrade env buffered).safe h
  | reply_and_upgrade env buffered =>
    cases hst
    exact (hc.sd_varlink_reply_and_upgrade env buffered).safe h
  | dispatch_again =>
    cases hst
    exact hc.sd_varlink_dispatch_again.safe h
  | close =>
    cases hst
    exact hc.close.safe h
  | process_failed =>
    dsimp only at hst
    split at hst
    · cases hst
      exact h.pending_disconnect
    · cases hst
      exact hc.close.safe h
  | test_disconnect =>
    dsimp only at hst
    split at hst
    · cases hst
      exact h.pending_disconnect
    · cases hst
  | dispatch_disconnect =>
    dsimp only at hst
    split at hst
    · cases hst
      exact hc.close.safe h
    · cases hst
  | dispatch_upgrade =>
    dsimp only at hst
    split at hst
    · cases hst
      exact hc.close.safe h
    · cases hst

theorem Safe.reachable
    (hv : Reachable ((serving : System (ServerLink R) _).restrict Undisturbed) v) : v.Safe := by
  refine hv.invariant (fun s hs => ?_) fun s label s' h hst => h.step hst.1 hst.2
  rw [show s = ServerLink.accepted from hs]
  exact .accepted

end dispatch

end ServerLink

/-! ## Section 5: Both sides -/

/-- **The state machine is safe**, in every run whose steps meet the
    conditions. On a client no assertion fails, the counter is the number of
    calls without a last reply, and after a synchronous call the connection is
    idle or gone. On a server no assertion fails. -/
theorem state_machine_safe {R : Type} [Double R] [DoubleCast R] :
    (∀ v : ClientLink R, Reachable (calling.restrict Orderly) v → v.Sound ∧
      ∀ (label : ClientLabel R) (v' : ClientLink R), v.Orderly label → v.step label = some v' →
        v.returned v' label → v'.Rested) ∧
    ∀ v : ServerLink R, Reachable (serving.restrict Undisturbed) v →
      v.crashed = false := by
  refine ⟨fun v hv => ?_, fun v hv => (Safe.reachable hv).core.crashed⟩
  have hinv := Inv.reachable hv
  exact ⟨hinv.sound, fun label v' hok hst => (hinv.step hok hst).2⟩

/-- A reply without anything in it, to the first call. -/
def empty_reply : Incoming Float := ⟨.object [], 0⟩

/-- A call, its reply, and a connection on the server that has been set up. -/
theorem state_machine_safe_one :
    (∃ v v' : ClientLink Float, v.step (.synchronous_return true) = some v' ∧ v.Sound ∧
      v'.Rested ∧ v'.n_pending = 0) ∧ (accepted : ServerLink Float).crashed = false := by
  obtain ⟨hclient, hserver⟩ := state_machine_safe (R := Float)
  have hnext : ∀ {v v' : ClientLink Float} (label : ClientLabel Float),
      Reachable (calling.restrict Orderly) v → v.Orderly label →
      v.step label = some v' → Reachable (calling.restrict Orderly) v' :=
    fun _ h hok hst => h.step ⟨hok, hst⟩
  have h1 := hnext (.call true) (.init rfl) trivial rfl
  have h2 := hnext (.peer empty_reply) h1 trivial rfl
  have h3 := hnext (.read 1 false) h2 trivial rfl
  have h4 := hnext .parse h3 trivial rfl
  have h5 := hnext (.dispatch_reply true) h4 trivial rfl
  obtain ⟨hsound, hreturned⟩ := hclient _ h5
  refine ⟨⟨_, _, rfl, hsound, ?_, rfl⟩, hserver _ (.init rfl)⟩
  exact hreturned (.synchronous_return true) _ nofun rfl Nat.zero_lt_one

/-- A reply and two extra ones are read together. The first extra reply is
    taken for the reply to a call with an upgrade, and the second one is still
    in the buffer when that call returns. -/
theorem extra_replies_before_upgrade :
    ¬ ∀ v : ClientLink Float, Reachable calling v → v.Sound := by
  intro h
  have hnext : ∀ {v v' : ClientLink Float} (label : ClientLabel Float),
      Reachable calling v → v.step label = some v' → Reachable calling v' :=
    fun _ h hst => h.step hst
  have h1 := hnext (.invoke true) (.init rfl) rfl
  have h2 := hnext (.peer empty_reply) h1 rfl
  have h3 := hnext (.peer empty_reply) h2 rfl
  have h4 := hnext (.peer empty_reply) h3 rfl
  have h5 := hnext (.read 3 false) h4 rfl
  have h6 := hnext .parse h5 rfl
  have h7 := hnext (.dispatch_reply true) h6 rfl
  have h8 := hnext .callback_return h7 rfl
  have h9 := hnext (.call_and_upgrade true) h8 rfl
  have h10 := hnext .parse h9 rfl
  have h11 := hnext (.dispatch_reply true) h10 rfl
  have h12 := hnext (.synchronous_return true) h11 rfl
  cases (h _ h12).crashed

end SdCompat.Varlink
