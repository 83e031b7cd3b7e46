import TouchI2c.Interaction.Custody
import TouchI2c.Smbios.Structures
import TouchI2c.Touch.Ready

/-!
# What the driver holds

The events it has created, its pool allocations and its own state, over a run of the driver. Each is
acquired only while it is not held, and used and given back only while it is. Using means what the
firmware is asked to do: arming, cancelling, signalling and closing an event, and installing the
protocol on the state. The reads and writes inside of a buffer are the driver's own, and are not
operations.

## The invariant

Between the dispatches what is held is what the state names (`TouchDev.holdings`): an event that is
flagged there, the input buffer, and the state itself as long as the protocol is installed or the
entry is running. `Holds` says so within a handler, with the allocations that the handler has open
besides, and `Custodian` between two dispatches. The report descriptor is allocated and freed within
one attempt, on every path; an attempt that replaces the input buffer frees the old one.

So nothing is leaked, whatever hardware, firmware and the pool do. The one thing asked of the
environment is that the pool hands out no address that is in use, because the driver can tell two
allocations apart by nothing else.
-/

namespace TouchI2c

open CMemory HidParse Interaction

/-! ## Resources -/

/-- What the driver acquires and gives back. -/
inductive Resource where
  | dev
  | pool (p : UInt64)
  | event (e : TouchEvent)
  deriving DecidableEq, Repr

/-- What the operations of the driver do to its resources. -/
def touchCustody : Custody Uefi Resource where
  acquires e r :=
    match e, r with
    | .allocateDev, (allocated : Bool) => if allocated then some .dev else none
    | .allocatePool _, (p : Option UInt64) => p.map .pool
    | .createEvent e, (status : EfiStatus) => if status.isError then none else some (.event e)
    | _, _ => none
  releases
    | .freeDev => some .dev
    | .freePool p => some (.pool p)
    | .closeEvent e => some (.event e)
    | _ => none
  uses
    | .installProtocol => some .dev
    | .setTimer e _ | .cancelTimer e | .signalEvent e => some (.event e)
    | _ => none
  exclusive e r h := by
    cases e <;> first | rfl | exact absurd rfl h

/-- The pool hands out no address that is in use. -/
def PoolFresh (t : List (Event Uefi)) : Prop :=
  ∀ t₁ size p t₂, t = t₁ ++ (⟨.allocatePool size, some p⟩ : Event Uefi) :: t₂ →
    .pool p ∉ touchCustody.held t₁

/-- Whether what the `i`-th event allocated was free. -/
private def poolFreshAt (t : List (Event Uefi)) (i : ℕ) : Bool :=
  match t[i]? with
  | none => true
  | some ev =>
    match touchCustody.acquires ev.op ev.ret with
    | some (.pool p) => decide (.pool p ∉ touchCustody.held (t.take i))
    | _ => true

private theorem poolFresh_of_check {t : List (Event Uefi)}
    (h : (List.range t.length).all (poolFreshAt t) = true) : PoolFresh t := by
  rintro t₁ size p t₂ rfl
  have hlen : t₁.length < (t₁ ++ (⟨.allocatePool size, some p⟩ : Event Uefi) :: t₂).length := by
    simp
  have hcheck := List.all_eq_true.mp h t₁.length (List.mem_range.mpr hlen)
  simpa [poolFreshAt, touchCustody] using hcheck

theorem prefixClosed_poolFresh : PrefixClosed PoolFresh := by
  intro t t' h t₁ size p t₂ heq
  exact h t₁ size p (t₂ ++ t') (by rw [heq, List.append_assoc, List.cons_append])

theorem Work.neutral {e : UefiOp} (h : Work e) : touchCustody.Neutral e := by
  cases e <;> first | exact h.elim | exact ⟨fun _ ↦ rfl, rfl, rfl⟩

/-- The flag of an event in the state. -/
def TouchDev.hasEvent (d : TouchDev) : TouchEvent → Bool
  | .waitForInput => d.waitForInput
  | .poll => d.pollEvent
  | .exitBoot => d.exitBootEvent
  | .retry => d.retryEvent

/-- The address of the input buffer. -/
def TouchDev.bufferAt (d : TouchDev) : Option UInt64 := d.inputBuf.map (·.address)

/-- The state of the driver, a buffer and some events. -/
def holdings (dev : Bool) (buffer : Option UInt64) (events : TouchEvent → Bool) : Set Resource
  | .dev => dev = true
  | .pool p => buffer = some p
  | .event e => events e = true

/-- What the state names. -/
def TouchDev.holdings (d : TouchDev) : Set Resource :=
  TouchI2c.holdings d.installed d.bufferAt d.hasEvent

instance (d : TouchDev) : (r : Resource) → Decidable (r ∈ d.holdings)
  | .dev => inferInstanceAs (Decidable (d.installed = true))
  | .pool p => inferInstanceAs (Decidable (d.bufferAt = some p))
  | .event e => inferInstanceAs (Decidable (d.hasEvent e = true))

section

variable {dev : Bool} {buffer : Option UInt64} {events : TouchEvent → Bool}

@[simp] theorem dev_mem_holdings : .dev ∈ holdings dev buffer events ↔ dev = true := Iff.rfl

@[simp] theorem pool_mem_holdings {p : UInt64} :
    .pool p ∈ holdings dev buffer events ↔ buffer = some p := Iff.rfl

@[simp] theorem event_mem_holdings {e : TouchEvent} :
    .event e ∈ holdings dev buffer events ↔ events e = true := Iff.rfl

theorem holdings_alloc {p : UInt64} :
    {k | .pool p = k ∨ k ∈ holdings dev none events} = holdings dev (some p) events := by
  ext k
  cases k <;> simp

theorem holdings_free {p : UInt64} :
    {k | k ∈ holdings dev (some p) events ∧ k ≠ .pool p} = holdings dev none events := by
  ext k
  cases k with
  | pool q =>
    constructor
    · rintro ⟨hq, hne⟩
      exact absurd (Option.some.inj hq) fun heq ↦ hne (heq ▸ rfl)
    · intro hq
      contradiction
  | _ => simp

theorem holdings_create {e : TouchEvent} : {k | .event e = k ∨ k ∈ holdings dev buffer events} =
    holdings dev buffer (Function.update events e true) := by
  ext k
  cases k with
  | event e' =>
    by_cases heq : e = e'
    · subst heq
      simp
    · have hne : e' ≠ e := fun h ↦ heq h.symm
      simp [heq, hne]
  | _ => simp

theorem holdings_close {e : TouchEvent} : {k | k ∈ holdings dev buffer events ∧ k ≠ .event e} =
    holdings dev buffer (Function.update events e false) := by
  ext k
  cases k with
  | event e' =>
    by_cases heq : e' = e
    · subst heq
      simp
    · simp [heq]
  | _ => simp

end

/-! ## The world -/

/-- The world that keeps the resources of the driver in order. -/
abbrev custodyWorld : World Uefi (List (Event Uefi)) := touchCustody.ledger PoolFresh

/-- `H` is held. -/
abbrev Held (H : Set Resource) (t : List (Event Uefi)) : Prop := touchCustody.held t = H

section

variable {α : Type} {H : Set Resource} {t : List (Event Uefi)} {d : TouchDev}

theorem keeps_work : custodyWorld.Keeps Work (Held H) :=
  fun e t he ↦ Custody.keeps_held e t he.neutral

/-! ## Pool memory -/

private theorem wp_allocateZeroPool_held (size : ℕ) (ht : Held H t) :
    custodyWorld.wp (allocateZeroPool size) (fun buf t' ↦ match buf with
      | none => Held H t'
      | some b => b.bytes.length = size ∧ .pool b.address ∉ H ∧
          Held {k | .pool b.address = k ∨ k ∈ H} t') t := by
  rw [allocateZeroPool, World.wp_bind]
  refine Custody.wp_acquire rfl rfl ht (fun r hF k hk ↦ ?_) fun r t' _ ht' hnovel ↦ ?_
  · cases r with
    | none => contradiction
    | some p =>
      obtain rfl : Resource.pool p = k := Option.some.inj hk
      exact ht ▸ hF t size p [] rfl
  · cases r with
    | none =>
      refine ht'.trans ?_
      ext k
      exact ⟨fun h ↦ h.elim (fun h ↦ by contradiction) id, .inr⟩
    | some p =>
      refine ⟨List.length_replicate, hnovel _ rfl, ht'.trans ?_⟩
      ext k
      exact or_congr_left Option.some_inj

private theorem wp_freePool_held {p : UInt64} (ht : Held H t) (hp : .pool p ∈ H) :
    custodyWorld.wp (uefi (.freePool p)) (fun _ t' ↦ Held {k | k ∈ H ∧ k ≠ .pool p} t') t :=
  Custody.wp_release (fun _ ↦ rfl) rfl (fun k hk ↦ by contradiction) ht hp
    fun _ _ _ ht' ↦ ht'

private theorem freed_eq {k₀ : Resource} (hnew : k₀ ∉ H) :
    {k | k ∈ {k | k₀ = k ∨ k ∈ H} ∧ k ≠ k₀} = H := by
  ext k
  constructor
  · rintro ⟨rfl | hk, hne⟩
    · exact absurd rfl hne
    · exact hk
  · intro hk
    exact ⟨.inr hk, fun heq ↦ hnew (heq ▸ hk)⟩

/-! ## Setting up a panel -/

/-- Reading and parsing the report descriptor. The buffer is freed on every path. -/
private theorem wpS_touchReadLayout_held {reportDesc : PoolBuffer}
    (hlen : reportDesc.bytes.length = d.hidDesc.wReportDescLength.toNat)
    (hnew : .pool reportDesc.address ∉ H)
    (ht : Held {k | .pool reportDesc.address = k ∨ k ∈ H} t) :
    custodyWorld.wpS (touchReadLayout reportDesc) (fun _ d' t' ↦
      (∃ bus layout, d' = { d with bus := bus, layout := layout }) ∧ Held H t') d t := by
  have hfree : ∀ {d₁ : TouchDev} {status : EfiStatus} {t₁},
      Held {k | .pool reportDesc.address = k ∨ k ∈ H} t₁ →
      (∃ bus layout, d₁ = { d with bus := bus, layout := layout }) → custodyWorld.wpS
        (do uefi (.freePool reportDesc.address); return status : Touch EfiStatus) (fun _ d' t' ↦
          (∃ bus layout, d' = { d with bus := bus, layout := layout }) ∧ Held H t') d₁ t₁ := by
    intro d₁ status t₁ ht₁ hd₁
    rw [World.wpS_bind, World.wpS_lift]
    exact World.wp_mono (wp_freePool_held ht₁ (.inl rfl)) fun _ t₂ ht₂ ↦
      ⟨hd₁, ht₂.trans (freed_eq hnew)⟩
  rw [touchReadLayout, World.wpS_bind, World.wpS_get, World.wpS_bind, wpS_onBus]
  refine World.wpS_mono ((routeRules_work keeps_work).wpS_readRegister _ hlen.ge ht) fun r bus t₁ h ↦ ?_
  obtain ⟨status, buf⟩ := r
  obtain ⟨⟨-, hsize⟩, ht₁⟩ := h
  dsimp only at hsize ⊢
  split
  · exact hfree ht₁ ⟨bus, d.layout, rfl⟩
  · have hlen' : (buf.getD reportDesc.bytes).length = d.hidDesc.wReportDescLength.toNat := by
      cases buf with
      | none => exact hlen
      | some bytes => exact (Option.some.inj hsize).trans hlen
    obtain ⟨desc, hfix⟩ := fixGoodixDescriptor_ok hlen'
    obtain ⟨status, layout, hparse⟩ := hidParseTouchLayout_ok desc d.maxInputLength d.layout
    rw [World.wpS_bind, World.wpS_liftChecked]
    refine ⟨desc, hfix, ?_⟩
    rw [World.wpS_bind, World.wpS_liftChecked]
    refine ⟨(status, layout), hparse, ?_⟩
    rw [World.wpS_bind, World.wpS_modify]
    exact hfree ht₁ ⟨bus, layout, rfl⟩

private theorem wpS_touchAllocateInput_held {dev : Bool}
    (ht : Held (holdings dev d.bufferAt d.hasEvent) t) :
    custodyWorld.wpS touchAllocateInput (fun _ d' t' ↦ (∃ buf, d' = { d with inputBuf := buf }) ∧
      Held (holdings dev d'.bufferAt d'.hasEvent) t') d t := by
  have hfree : custodyWorld.wp (freeBuffer d.inputBuf)
      (fun _ t' ↦ Held (holdings dev none d.hasEvent) t') t := by
    unfold freeBuffer
    cases hbuf : d.inputBuf with
    | none =>
      rw [TouchDev.bufferAt, hbuf] at ht
      exact ht
    | some b =>
      have hat : d.bufferAt = some b.address := by rw [TouchDev.bufferAt, hbuf, Option.map_some]
      rw [hat] at ht
      exact World.wp_mono (wp_freePool_held ht rfl) fun _ t' ht' ↦ ht'.trans holdings_free
  rw [touchAllocateInput, World.wpS_bind, World.wpS_get, World.wpS_bind, World.wpS_lift]
  refine World.wp_mono hfree fun _ t₁ ht₁ ↦ ?_
  rw [World.wpS_bind, World.wpS_lift]
  refine World.wp_mono (wp_allocateZeroPool_held _ ht₁) fun buf t₂ h₂ ↦ ⟨⟨buf, rfl⟩, ?_⟩
  cases buf with
  | none => exact h₂
  | some b =>
    obtain ⟨-, -, ht₂⟩ := h₂
    exact ht₂.trans holdings_alloc

/-- The state `d'` names the events of `d`, and what it names is held. -/
private structure Holds (d d' : TouchDev) (t : List (Event Uefi)) : Prop where
  events : d'.hasEvent = d.hasEvent
  installed : d'.installed = d.installed
  held : Held d'.holdings t

private theorem Holds.refl (ht : Held d.holdings t) : Holds d d t := ⟨rfl, rfl, ht⟩

private theorem Holds.keep {d' d'' : TouchDev} (h : Holds d d' t)
    (hframe : (d''.hasEvent, d''.installed, d''.bufferAt) = (d'.hasEvent, d'.installed, d'.bufferAt)) :
    Holds d d'' t := by
  simp only [Prod.mk.injEq] at hframe
  obtain ⟨hevents, hinstalled, hbuffer⟩ := hframe
  refine ⟨hevents.trans h.events, hinstalled.trans h.installed, ?_⟩
  rw [Held, TouchDev.holdings, hevents, hinstalled, hbuffer]
  exact h.held

private theorem wpS_touchOpenInput_held {d' : TouchDev} (hpoll : d.pollEvent = true)
    (h : Holds d d' t) :
    custodyWorld.wpS touchOpenInput (fun _ d'' t' ↦ Holds d d'' t') d' t := by
  have huse : .event .poll ∈ d'.holdings := (congrFun h.events .poll).trans hpoll
  rw [touchOpenInput, World.wpS_bind, World.wpS_modify, World.wpS_bind, World.wpS_get,
    World.wpS_bind, World.wpS_lift]
  refine Custody.wp_use (fun _ ↦ rfl) rfl (fun k hk ↦ ?_) h.held fun status t' _ ht' ↦ ?_
  · obtain rfl : Resource.event .poll = k := Option.some.inj hk
    exact huse
  · have h' : Holds d d' t' := ⟨h.events, h.installed, ht'⟩
    split
    · exact h'.keep rfl
    · exact h'.keep rfl

private theorem wpS_touchStart_held {d' : TouchDev} (hpoll : d.pollEvent = true)
    (h : Holds d d' t) : custodyWorld.wpS touchStart (fun _ d'' t' ↦ Holds d d'' t') d' t := by
  rw [touchStart, World.wpS_bind, World.wpS_modify, World.wpS_bind]
  have h₁ : Holds d { d' with layout := fixMaxima d'.layout } t := h.keep rfl
  refine World.wpS_mono (wpS_touchAllocateInput_held h₁.held) fun ok d₂ t₂ h₂ ↦ ?_
  obtain ⟨⟨buf, rfl⟩, ht₂⟩ := h₂
  have h₂ : Holds d { d' with layout := fixMaxima d'.layout, inputBuf := buf } t₂ :=
    ⟨h.events, h.installed, ht₂⟩
  split
  · rw [World.wpS_bind]
    refine World.wpS_mono (wpS_touchBringUp (routeRules_work keeps_work) ht₂) fun _ d₃ t₃ h₃ ↦ ?_
    obtain ⟨⟨bus, -, rfl⟩, ht₃⟩ := h₃
    rw [World.wpS_bind]
    refine World.wpS_mono (wpS_touchUpdateOrientation ((keeps_panel keeps_work).mono fun _ ↦
      DisplayQuery.panel) ht₃) fun _ d₄ t₄ h₄ ↦ ?_
    obtain ⟨⟨gop, rotate, rfl⟩, ht₄⟩ := h₄
    exact wpS_touchOpenInput_held hpoll ⟨h₂.events, h₂.installed, ht₄⟩
  · exact h₂

private theorem wpS_touchSetUp_held (hpoll : d.pollEvent = true) {d' : TouchDev}
    (h : Holds d d' t) : custodyWorld.wpS touchSetUp (fun _ d'' t' ↦ Holds d d'' t') d' t := by
  rw [touchSetUp, World.wpS_bind, World.wpS_get, World.wpS_bind, World.wpS_lift]
  refine World.wp_mono (wp_allocateZeroPool_held _ h.held) fun buf t₁ h₁ ↦ ?_
  cases buf with
  | none => exact ⟨h.events, h.installed, h₁⟩
  | some reportDesc =>
    obtain ⟨hlen, hnew, ht₁⟩ := h₁
    dsimp only
    rw [World.wpS_bind]
    refine World.wpS_mono (wpS_touchReadLayout_held hlen hnew ht₁) fun status d₂ t₂ h₂ ↦ ?_
    obtain ⟨⟨bus, layout, rfl⟩, ht₂⟩ := h₂
    have h₂ : Holds d { d' with bus := bus, layout := layout } t₂ := ⟨h.events, h.installed, ht₂⟩
    split
    · exact h₂
    · exact wpS_touchStart_held hpoll h₂

/-- **An attempt** leaves no allocation of its own but the input buffer. -/
private theorem wpS_touchTryBringUp_held (hpoll : d.pollEvent = true) (ht : Held d.holdings t) :
    custodyWorld.wpS touchTryBringUp (fun _ d' t' ↦ Holds d d' t') d t := by
  rw [touchTryBringUp, World.wpS_bind, World.wpS_modify, World.wpS_bind]
  have hstart : Held d.startAttempt.holdings t := ht
  refine World.wpS_mono (keeps_work.wpS (touchDetect_work (fun _ h ↦ h) d.startAttempt) hstart)
    fun status d₁ t₁ h₁ ↦ ?_
  obtain ⟨⟨hframe, -⟩, ht₁⟩ := h₁
  have hstate : (d₁.hasEvent, d₁.installed, d₁.bufferAt) = (d.hasEvent, d.installed, d.bufferAt) :=
    (congrArg (fun d : TouchDev ↦ (d.hasEvent, d.installed, d.bufferAt)) hframe :)
  have h₁ : Holds d d₁ t₁ := Holds.keep ⟨rfl, rfl, ht₁⟩ hstate
  split
  · exact h₁
  · exact wpS_touchSetUp_held hpoll h₁

/-! ## Dispatches -/

/-- What holds between the dispatches: what the state names is held, and a driver that is installed
has its events. -/
structure Custodian (d : TouchDev) (t : List (Event Uefi)) : Prop where
  driver : ∃ n, DriverInv n d
  held : Held d.holdings t
  events : d.installed = true → d.waitForInput = true ∧ d.pollEvent = true ∧ d.exitBootEvent = true
  inert : d.installed = false → d.holdings = ∅

/-- What is dispatched is dispatched to a driver that is installed. -/
private theorem Custodian.installed (h : Custodian d t) {call : Dispatch}
    (hcall : call.enabled d = true) : d.installed = true := by
  by_contra hnot
  have hnone := h.inert (by simpa using hnot)
  have hevent : ∀ e, d.hasEvent e ≠ true := fun e he ↦ by
    have hin : Resource.event e ∈ d.holdings := he
    rwa [hnone] at hin
  cases call with
  | retry => exact hevent .retry hcall
  | poll => exact hevent .poll hcall
  | exitBoot => exact hevent .exitBoot hcall
  | waitForInput => exact hevent .waitForInput hcall
  | reset extendedVerification => exact hnot hcall
  | getState hasState => exact hnot hcall

private theorem wp_useEvent {e : UefiOp} {k : TouchEvent} {Q : e.Ret → List (Event Uefi) → Prop}
    (hacq : ∀ r, touchCustody.acquires e r = none) (hrel : touchCustody.releases e = none)
    (huse : touchCustody.uses e = some (.event k)) (hk : d.hasEvent k = true)
    (ht : Held d.holdings t) (hQ : ∀ r t', Held d.holdings t' → Q r t') :
    custodyWorld.wp (uefi e) Q t := by
  refine Custody.wp_use hacq hrel (fun k' hk' ↦ ?_) ht fun r t' _ ↦ hQ r t'
  rw [huse] at hk'
  exact Option.some.inj hk' ▸ hk

private theorem wp_cancelTimerOf_held {e : TouchEvent} {present : Bool}
    (he : present = d.hasEvent e) (ht : Held d.holdings t) :
    custodyWorld.wp (cancelTimerOf e present) (fun _ t' ↦ Held d.holdings t') t := by
  unfold cancelTimerOf
  split
  · next hpresent =>
    rw [World.wp_bind]
    exact wp_useEvent (fun _ ↦ rfl) rfl rfl (he ▸ hpresent) ht fun _ _ ht' ↦ ht'
  · exact ht

private theorem wpS_touchCloseRetry_held (hretry : d.retryEvent = true) (ht : Held d.holdings t) :
    custodyWorld.wpS touchCloseRetry (fun _ d' t' ↦
      d' = { d with retryEvent := false } ∧ Held d'.holdings t') d t := by
  rw [touchCloseRetry, World.wpS_bind, World.wpS_lift]
  refine wp_useEvent (k := .retry) (fun _ ↦ rfl) rfl rfl hretry ht fun _ t₁ ht₁ ↦ ?_
  rw [World.wpS_bind, World.wpS_modify, World.wpS_bind, World.wpS_lift]
  refine Custody.wp_release (fun _ ↦ rfl) rfl (fun k hk ↦ by contradiction) ht₁ hretry
    fun _ t₂ _ ht₂ ↦ ⟨rfl, ht₂.trans (holdings_close.trans ?_)⟩
  refine congrArg (holdings d.installed d.bufferAt) (funext fun e ↦ ?_)
  cases e <;> rfl

private theorem wpS_touchRetry_held (hpoll : d.pollEvent = true) (hretry : d.retryEvent = true)
    (ht : Held d.holdings t) : custodyWorld.wpS touchRetry (fun _ d' t' ↦ Held d'.holdings t' ∧
      d'.installed = d.installed ∧ ∀ e, e ≠ .retry → d'.hasEvent e = d.hasEvent e) d t := by
  rw [touchRetry, World.wpS_bind]
  refine World.wpS_mono (wpS_touchTryBringUp_held hpoll ht) fun status d₁ t₁ h₁ ↦ ?_
  rw [World.wpS_bind, World.wpS_get]
  split
  · exact ⟨h₁.held, h₁.installed, fun e _ ↦ congrFun h₁.events e⟩
  · have hretry₁ : d₁.retryEvent = true := (congrFun h₁.events .retry).trans hretry
    refine World.wpS_mono (wpS_touchCloseRetry_held hretry₁ h₁.held) fun _ d₂ t₂ h₂ ↦ ?_
    obtain ⟨rfl, ht₂⟩ := h₂
    refine ⟨ht₂, h₁.installed, fun e he ↦ ?_⟩
    cases e with
    | retry => exact absurd rfl he
    | waitForInput => exact congrFun h₁.events .waitForInput
    | poll => exact congrFun h₁.events .poll
    | exitBoot => exact congrFun h₁.events .exitBoot

private theorem Holds.between {d' : TouchDev} (h : Holds d d' t) : Held d'.holdings t ∧
    d'.installed = d.installed ∧ ∀ e, e ≠ .retry → d'.hasEvent e = d.hasEvent e :=
  ⟨h.held, h.installed, fun e _ ↦ congrFun h.events e⟩

private theorem wpS_touchPoll_held (hpath : d.ready = true → d.InputPath) (ht : Held d.holdings t) :
    custodyWorld.wpS touchPoll (fun _ d' t' ↦ Holds d d' t') d t := by
  refine World.wpS_mono (PollRules.wpS_touchPoll (fun _ ↦ pollRules_work keeps_work) hpath ht)
    fun _ d' t' h' ↦ ?_
  obtain ⟨hd', ht'⟩ := h'
  rcases hd' with rfl | ⟨-, hd'⟩
  · exact .refl ht'
  · have hstate : (d'.hasEvent, d'.installed) = (d.hasEvent, d.installed) :=
      (congrArg (fun d : TouchDev ↦ (d.hasEvent, d.installed)) hd'.frame :)
    obtain ⟨hevents, hinstalled⟩ := Prod.mk.injEq .. ▸ hstate
    have hbuffer : d'.bufferAt = d.bufferAt := by
      have h := congrArg (Option.map Prod.fst) hd'.buffer
      rwa [Option.map_map, Option.map_map] at h
    refine Holds.keep ⟨rfl, rfl, ht'⟩ ?_
    rw [hevents, hinstalled, hbuffer]

private theorem wpS_touchExitBootServices_held (ht : Held d.holdings t) :
    custodyWorld.wpS touchExitBootServices (fun _ d' t' ↦ Holds d d' t') d t := by
  rw [touchExitBootServices, World.wpS_bind, World.wpS_get, World.wpS_bind, World.wpS_lift]
  refine World.wp_mono (wp_cancelTimerOf_held (e := .poll) rfl ht) fun _ t₁ ht₁ ↦ ?_
  rw [World.wpS_bind, World.wpS_lift]
  refine World.wp_mono (wp_cancelTimerOf_held (e := .retry) rfl ht₁) fun _ t₂ ht₂ ↦ ?_
  split
  · rw [wpS_onBus]
    refine World.wpS_mono (keeps_work.wpS i2cBusDisable_work ht₂) fun _ bus t₃ h₃ ↦ ?_
    exact ⟨rfl, rfl, h₃.2⟩
  · exact .refl ht₂

private theorem keeps_pointer (hwait : d.waitForInput = true) :
    custodyWorld.Keeps PointerService (Held d.holdings) := by
  intro e t he ht
  cases e with
  | raiseTpl => exact keeps_work _ t trivial ht
  | restoreTpl => exact keeps_work _ t trivial ht
  | signalEvent e =>
    cases e with
    | waitForInput =>
      exact wp_useEvent (k := .waitForInput) (fun _ ↦ rfl) rfl rfl hwait ht fun _ _ ht' ↦ ht'
    | _ => exact he.elim
  | _ => exact he.elim

/-- **One dispatch.** -/
theorem wpS_touchDispatch_held (h : Custodian d t) (call : Dispatch) :
    custodyWorld.wpS (touchDispatch call) (fun _ d' t' ↦ Custodian d' t') d t := by
  obtain ⟨n, hinv⟩ := h.driver
  -- what is held, and the events of the driver
  have hheld : custodyWorld.wpS (touchDispatch call) (fun _ d' t' ↦ d' = d ∧ Held d.holdings t' ∨
      d.installed = true ∧ Held d'.holdings t' ∧ d'.installed = d.installed ∧
        ∀ e, e ≠ .retry → d'.hasEvent e = d.hasEvent e) d t := by
    rw [touchDispatch, World.wpS_bind, World.wpS_get]
    split
    · next henabled =>
      have hinstalled := h.installed henabled
      obtain ⟨hwait, hpoll, -⟩ := h.events hinstalled
      have hJ := keeps_pointer hwait
      cases call with
      | retry =>
        exact World.wpS_mono (wpS_touchRetry_held hpoll henabled h.held)
          fun _ _ _ h' ↦ .inr ⟨hinstalled, h'⟩
      | poll =>
        exact World.wpS_mono (wpS_touchPoll_held (fun hr ↦ (hinv.ready hr).2) h.held)
          fun _ _ _ h' ↦ .inr ⟨hinstalled, h'.between⟩
      | exitBoot =>
        exact World.wpS_mono (wpS_touchExitBootServices_held h.held)
          fun _ _ _ h' ↦ .inr ⟨hinstalled, h'.between⟩
      | waitForInput =>
        refine World.wpS_mono (wpS_touchWaitForInput hJ h.held) fun _ d' t' h' ↦ ?_
        obtain ⟨rfl, ht'⟩ := h'
        exact .inr ⟨hinstalled, (Holds.refl ht').between⟩
      | reset extendedVerification =>
        change custodyWorld.wpS (do let _ ← touchReset extendedVerification) _ _ _
        rw [World.wpS_bind]
        refine World.wpS_mono (wpS_touchReset hJ _ h.held) fun _ d' t' h' ↦ ?_
        obtain ⟨rfl, ht'⟩ := h'
        exact .inr ⟨hinstalled, ht', rfl, fun _ _ ↦ rfl⟩
      | getState hasState =>
        change custodyWorld.wpS (do let _ ← touchGetState hasState) _ _ _
        rw [World.wpS_bind]
        refine World.wpS_mono (wpS_touchGetState hJ hasState h.held) fun _ d' t' h' ↦ ?_
        obtain ⟨rfl | ⟨-, rfl⟩, ht'⟩ := h'
        · exact .inr ⟨hinstalled, (Holds.refl ht').between⟩
        · exact .inr ⟨hinstalled, ht', rfl, fun _ _ ↦ rfl⟩
    · exact .inl ⟨rfl, h.held⟩
  refine World.wpS_mono (World.wpS_and_within hheld (touchDispatch_any hinv call))
    fun _ d' t' h' ↦ ?_
  obtain ⟨⟨rfl, ht'⟩ | ⟨hinstalled, ht', hinstalled', hevents⟩, hinv', -⟩ := h'
  · exact ⟨⟨_, hinv'⟩, ht', h.events, h.inert⟩
  · obtain ⟨hwait, hpoll, hboot⟩ := h.events hinstalled
    refine ⟨⟨_, hinv'⟩, ht', fun _ ↦ ⟨?_, ?_, ?_⟩, fun hnot ↦ ?_⟩
    · exact (hevents .waitForInput (by decide)).trans hwait
    · exact (hevents .poll (by decide)).trans hpoll
    · exact (hevents .exitBoot (by decide)).trans hboot
    · exact absurd (hinstalled'.trans hinstalled) (by rw [hnot]; decide)

/-! ## The entry -/

@[simp] private theorem hasEvent_noteEvent (e : TouchEvent) :
    (d.noteEvent e).hasEvent = Function.update d.hasEvent e true := by
  funext e'
  cases e <;> cases e' <;> rfl

@[simp] private theorem bufferAt_noteEvent (e : TouchEvent) :
    (d.noteEvent e).bufferAt = d.bufferAt := by
  cases e <;> rfl

@[simp] private theorem installed_noteEvent (e : TouchEvent) :
    (d.noteEvent e).installed = d.installed := by
  cases e <;> rfl

private theorem wpS_touchCreateEvent_held {dev : Bool} {e : TouchEvent}
    (hnew : d.hasEvent e = false) (ht : Held (holdings dev d.bufferAt d.hasEvent) t) :
    custodyWorld.wpS (touchCreateEvent e) (fun created d' t' ↦
      d' = (if created then d.noteEvent e else d) ∧
        Held (holdings dev d'.bufferAt d'.hasEvent) t') d t := by
  rw [touchCreateEvent, World.wpS_bind, World.wpS_lift]
  refine Custody.wp_acquire rfl rfl ht (fun status _ k hk hheld ↦ ?_) fun status t₁ _ ht₁ _ ↦ ?_
  · change (if status.isError then none else some (.event e)) = some k at hk
    split at hk
    · contradiction
    · obtain rfl : Resource.event e = k := Option.some.inj hk
      exact absurd (hnew.symm.trans hheld) (by decide)
  · change Held {k | (if status.isError then none else some (.event e)) = some k ∨ _} t₁ at ht₁
    split
    · next herr =>
      refine ⟨rfl, ht₁.trans ?_⟩
      ext k
      simp [herr]
    · next hok =>
      refine ⟨rfl, ht₁.trans ?_⟩
      rw [bufferAt_noteEvent, hasEvent_noteEvent, ← holdings_create]
      ext k
      simp [hok]

/-- What holds while the entry creates the events. -/
private structure Creating (d : TouchDev) (t : List (Event Uefi)) : Prop where
  installed : d.installed = false
  retry : d.retryEvent = false
  held : Held (holdings true d.bufferAt d.hasEvent) t

private theorem Creating.create (h : Creating d t) {e : TouchEvent} (he : e ≠ .retry)
    (hnew : d.hasEvent e = false) {f : Bool → Touch Bool}
    {Q : Bool → TouchDev → List (Event Uefi) → Prop}
    (hnone : ∀ t', Creating d t' → custodyWorld.wpS (f false) Q d t')
    (hsome : ∀ t', Creating (d.noteEvent e) t' → custodyWorld.wpS (f true) Q (d.noteEvent e) t') :
    custodyWorld.wpS (touchCreateEvent e >>= f) Q d t := by
  rw [World.wpS_bind]
  refine World.wpS_mono (wpS_touchCreateEvent_held hnew h.held) fun created d₁ t₁ h₁ ↦ ?_
  obtain ⟨rfl, ht₁⟩ := h₁
  cases created with
  | false => exact hnone t₁ ⟨h.installed, h.retry, ht₁⟩
  | true =>
    refine hsome t₁ ⟨(installed_noteEvent e).trans h.installed, ?_, ht₁⟩
    cases e with
    | retry => exact absurd rfl he
    | _ => exact h.retry

/-- The events of a driver that is installed. -/
private def Installed (d : TouchDev) : Prop :=
  d.waitForInput = true ∧ d.pollEvent = true ∧ d.exitBootEvent = true

private theorem wpS_touchInstall_held (h : Creating d t) (hnone : d.hasEvent = fun _ ↦ false) :
    custodyWorld.wpS touchInstall (fun installed d' t' ↦ d'.installed = installed ∧
      d'.retryEvent = false ∧ Held (holdings true d'.bufferAt d'.hasEvent) t' ∧
      (installed = true → Installed d')) d t := by
  have hstop : ∀ {d : TouchDev} {t}, Creating d t → custodyWorld.wpS (return false : Touch Bool)
      (fun installed d' t' ↦ d'.installed = installed ∧ d'.retryEvent = false ∧
        Held (holdings true d'.bufferAt d'.hasEvent) t' ∧ (installed = true → Installed d')) d t :=
    fun h ↦ ⟨h.installed, h.retry, h.held, fun hnot ↦ by contradiction⟩
  have hno : ∀ e, d.hasEvent e = false := fun e ↦ by rw [hnone]
  unfold touchInstall
  refine h.create (by decide) (hno _) (fun t₁ h₁ ↦ hstop h₁) fun t₁ h₁ ↦ ?_
  rw [if_pos rfl]
  refine h₁.create (e := .poll) (by decide) (hno .poll) (fun t₂ h₂ ↦ hstop h₂) fun t₂ h₂ ↦ ?_
  rw [if_pos rfl]
  refine h₂.create (e := .exitBoot) (by decide) (hno .exitBoot) (fun t₃ h₃ ↦ hstop h₃) fun t₃ h₃ ↦ ?_
  rw [if_pos rfl, World.wpS_bind, World.wpS_lift]
  refine Custody.wp_use (fun _ ↦ rfl) rfl (fun k hk ↦ ?_) h₃.held fun status t₄ _ ht₄ ↦ ?_
  · obtain rfl : Resource.dev = k := Option.some.inj hk
    exact rfl
  · split
    · exact hstop ⟨h₃.installed, h₃.retry, ht₄⟩
    · exact ⟨rfl, h₃.retry, ht₄, fun _ ↦ ⟨rfl, rfl, rfl⟩⟩

private theorem wp_closeEventOf_held {dev : Bool} {buffer : Option UInt64}
    {events : TouchEvent → Bool} (e : TouchEvent) (timer : Bool)
    (ht : Held (holdings dev buffer events) t) :
    custodyWorld.wp (closeEventOf e timer (events e))
      (fun _ t' ↦ Held (holdings dev buffer (Function.update events e false)) t') t := by
  unfold closeEventOf
  split
  · next hpresent =>
    have hcancel : custodyWorld.wp (cancelTimerOf e timer)
        (fun _ t' ↦ Held (holdings dev buffer events) t') t := by
      unfold cancelTimerOf
      split
      · rw [World.wp_bind]
        refine Custody.wp_use (fun _ ↦ rfl) rfl (fun k hk ↦ ?_) ht fun _ _ _ ht' ↦ ht'
        obtain rfl : Resource.event e = k := Option.some.inj hk
        exact hpresent
      · exact ht
    rw [World.wp_bind]
    refine World.wp_mono hcancel fun _ t₁ ht₁ ↦ ?_
    rw [World.wp_bind]
    exact Custody.wp_release (fun _ ↦ rfl) rfl (fun k hk ↦ by contradiction) ht₁ hpresent
      fun _ t₂ _ ht₂ ↦ ht₂.trans holdings_close
  · next habsent =>
    have hsame : Function.update events e false = events :=
      Function.update_eq_self_iff.mpr (Bool.eq_false_of_not_eq_true habsent).symm
    rw [hsame]
    exact ht

private theorem wp_freeBuffer_held {dev : Bool} {events : TouchEvent → Bool}
    {buf : Option PoolBuffer} (ht : Held (holdings dev (buf.map (·.address)) events) t) :
    custodyWorld.wp (freeBuffer buf) (fun _ t' ↦ Held (holdings dev none events) t') t := by
  unfold freeBuffer
  cases buf with
  | none => exact ht
  | some b =>
    exact World.wp_mono (wp_freePool_held ht rfl) fun _ t' ht' ↦ ht'.trans holdings_free

/-- **The inert exit** gives everything back. -/
private theorem wpS_touchInert_held (hinstalled : d.installed = false)
    (ht : Held (holdings true d.bufferAt d.hasEvent) t) :
    custodyWorld.wpS touchInert (fun _ d' t' ↦ d'.installed = false ∧ d'.holdings = ∅ ∧
      Held ∅ t') d t := by
  rw [touchInert, World.wpS_bind, World.wpS_get, World.wpS_bind, World.wpS_lift]
  refine World.wp_mono (wp_closeEventOf_held .retry true ht) fun _ t₁ ht₁ ↦ ?_
  rw [World.wpS_bind, World.wpS_lift]
  refine World.wp_mono (wp_closeEventOf_held .poll true ht₁) fun _ t₂ ht₂ ↦ ?_
  rw [World.wpS_bind, World.wpS_lift]
  refine World.wp_mono (wp_closeEventOf_held .waitForInput false ht₂) fun _ t₃ ht₃ ↦ ?_
  rw [World.wpS_bind, World.wpS_lift]
  refine World.wp_mono (wp_closeEventOf_held .exitBoot false ht₃) fun _ t₄ ht₄ ↦ ?_
  rw [World.wpS_bind, World.wpS_lift]
  refine World.wp_mono (wp_freeBuffer_held ht₄) fun _ t₅ ht₅ ↦ ?_
  rw [World.wpS_bind, World.wpS_lift]
  refine Custody.wp_release (fun _ ↦ rfl) rfl (fun k hk ↦ by contradiction) ht₅ rfl
    fun _ t₆ _ ht₆ ↦ ?_
  rw [World.wpS_set]
  refine ⟨hinstalled, ?_, ht₆.trans ?_⟩
  · ext k
    cases k with
    | dev => simp [TouchDev.holdings, hinstalled]
    | pool p => simp [TouchDev.holdings, TouchDev.bufferAt]
    | event e => cases e <;> simp [TouchDev.holdings, TouchDev.hasEvent]
  · ext k
    cases k with
    | event e => cases e <;> simp
    | _ => simp

private theorem wpS_touchFirstAttempt_held (hinstalled : d.installed = true)
    (hretry : d.retryEvent = false) (hevents : Installed d) (ht : Held d.holdings t) :
    custodyWorld.wpS touchFirstAttempt (fun _ d' t' ↦ d'.installed = true ∧ Installed d' ∧
      Held d'.holdings t') d t := by
  rw [touchFirstAttempt, World.wpS_bind]
  refine World.wpS_mono (wpS_touchTryBringUp_held hevents.2.1 ht) fun status d₁ t₁ h₁ ↦ ?_
  have hinstalled₁ : d₁.installed = true := h₁.installed.trans hinstalled
  have hevents₁ : Installed d₁ :=
    ⟨(congrFun h₁.events .waitForInput).trans hevents.1, (congrFun h₁.events .poll).trans hevents.2.1,
      (congrFun h₁.events .exitBoot).trans hevents.2.2⟩
  have hretry₁ : d₁.retryEvent = false := (congrFun h₁.events .retry).trans hretry
  split
  · rw [touchArmRetry, World.wpS_bind]
    refine World.wpS_mono (wpS_touchCreateEvent_held hretry₁ h₁.held) fun created d₂ t₂ h₂ ↦ ?_
    obtain ⟨rfl, ht₂⟩ := h₂
    cases created with
    | false => exact ⟨hinstalled₁, hevents₁, ht₂⟩
    | true =>
      rw [if_pos rfl] at ht₂ ⊢
      rw [if_pos rfl, World.wpS_bind, World.wpS_lift]
      refine wp_useEvent (d := d₁.noteEvent .retry) (k := .retry) (fun _ ↦ rfl) rfl rfl rfl ht₂
        fun status' t₃ ht₃ ↦ ?_
      split
      · rw [World.wpS_bind, World.wpS_modify, World.wpS_bind, World.wpS_lift]
        refine Custody.wp_release (fun _ ↦ rfl) rfl (fun k hk ↦ by contradiction) ht₃ rfl
          fun _ t₄ _ ht₄ ↦ ⟨hinstalled₁, hevents₁, ht₄.trans (holdings_close.trans ?_)⟩
        refine congrArg (holdings d₁.installed d₁.bufferAt) (funext fun e ↦ ?_)
        cases e <;> rfl
      · exact ⟨hinstalled₁, hevents₁, ht₃⟩
  · exact ⟨hinstalled₁, hevents₁, h₁.held⟩

/-- What the driver holds when it has just got its state. -/
private def onlyDev : Set Resource := holdings true none ({} : TouchDev).hasEvent

private theorem touchEntryAs_held (dmi : DmiIdentity) (ht : Held onlyDev t) :
    custodyWorld.wpS (touchEntryAs dmi) (fun _ d' t' ↦ Custodian d' t') {} t := by
  have hheld : custodyWorld.wpS (touchEntryAs dmi) (fun _ d' t' ↦ Held d'.holdings t' ∧
      (d'.installed = true → Installed d') ∧ (d'.installed = false → d'.holdings = ∅)) {} t := by
    rw [touchEntryAs, World.wpS_bind, World.wpS_modify, World.wpS_bind, World.wpS_lift]
    refine World.wp_mono (keeps_work.wp (logProfiles_work dmi mProfiles) ht) fun _ t₁ h₁ ↦ ?_
    rw [World.wpS_bind, World.wpS_modify, World.wpS_bind]
    refine World.wpS_mono (wpS_touchInstall_held ⟨rfl, rfl, h₁.2⟩ (funext fun e ↦ by cases e <;> rfl))
      fun installed d₂ t₂ h₂ ↦ ?_
    obtain ⟨hinstalled, hretry, ht₂, hevents⟩ := h₂
    cases installed with
    | true =>
      rw [if_pos rfl]
      have hheld₂ : Held d₂.holdings t₂ := by rwa [TouchDev.holdings, hinstalled]
      refine World.wpS_mono (wpS_touchFirstAttempt_held hinstalled hretry (hevents rfl) hheld₂)
        fun _ d₃ t₃ h₃ ↦ ?_
      obtain ⟨hinstalled₃, hevents₃, ht₃⟩ := h₃
      exact ⟨ht₃, fun _ ↦ hevents₃, fun hnot ↦ absurd hinstalled₃ (by rw [hnot]; decide)⟩
    | false =>
      rw [if_neg (by decide)]
      refine World.wpS_mono (wpS_touchInert_held hinstalled ht₂) fun _ d₃ t₃ h₃ ↦ ?_
      obtain ⟨hnot, hnone, ht₃⟩ := h₃
      exact ⟨by rwa [hnone], fun h ↦ absurd h (by rw [hnot]; decide), fun _ ↦ hnone⟩
  refine World.wpS_mono (World.wpS_and_within hheld (touchEntryAs_any dmi)) fun _ d' t' h' ↦ ?_
  obtain ⟨⟨ht', hevents, hinert⟩, hinv⟩ := h'
  exact ⟨⟨1, hinv⟩, ht', hevents, hinert⟩

/-- **The entry.** -/
private theorem touchI2cDxeEntry_held (entries : List ConfigurationEntry) :
    custodyWorld.wpS (touchI2cDxeEntry entries) (fun _ d' t' ↦ Custodian d' t') {} [] := by
  obtain ⟨dmi, hread, -⟩ := touchReadDmiIdentity_ok entries
  rw [touchI2cDxeEntry, World.wpS_bind, World.wpS_lift]
  refine Custody.wp_acquire rfl rfl Custody.held_nil (fun _ _ _ _ h ↦ h) fun allocated t₁ _ ht₁ _ ↦ ?_
  cases allocated with
  | false =>
    have hnone : ({} : TouchDev).holdings = ∅ := by
      ext k
      cases k with
      | event e => cases e <;> simp [TouchDev.holdings, TouchDev.hasEvent]
      | _ => simp [TouchDev.holdings, TouchDev.bufferAt]
    refine ⟨⟨1, ⟨fun h ↦ by contradiction, by decide, fun h ↦ by contradiction⟩⟩, ?_,
      fun h ↦ by contradiction, fun _ ↦ hnone⟩
    refine ht₁.trans ?_
    rw [hnone]
    ext k
    simp [touchCustody]
  | true =>
    rw [if_pos rfl, World.wpS_bind, World.wpS_liftChecked]
    refine ⟨dmi, hread, touchEntryAs_held dmi (ht₁.trans ?_)⟩
    ext k
    cases k with
    | event e => cases e <;> simp [touchCustody, onlyDev, TouchDev.hasEvent]
    | _ => simp [touchCustody, onlyDev]

end

/-! ## Runs -/

/-- What a run of the driver has performed at some moment: during its entry, or during a
dispatch. -/
inductive Performed (entry : Touch Unit) : List (Event Uefi) → Prop
  | entry {t : List (Event Uefi)} {q : Prog Uefi (Unit × TouchDev)}
      (h : (entry.run {}).Reaches t q) : Performed entry t
  | dispatch {t₀ t : List (Event Uefi)} {steps : List Step} {d : TouchDev}
      {q : Prog Uefi (Unit × TouchDev)} (hrun : Run entry t₀ steps d) {call : Dispatch}
      (h : ((touchDispatch call).run d).Reaches t q) :
      Performed entry (t₀ ++ steps.flatMap Step.trace ++ t)

section

variable {entries : List ConfigurationEntry} {t₀ : List (Event Uefi)} {steps : List Step}
  {d : TouchDev}

private theorem custodian_of_run (h : Run (touchI2cDxeEntry entries) t₀ steps d)
    (hpool : PoolFresh (t₀ ++ steps.flatMap Step.trace)) :
    touchCustody.Kept (t₀ ++ steps.flatMap Step.trace) ∧
      Custodian d (t₀ ++ steps.flatMap Step.trace) := by
  obtain ⟨d₀, hentry, hsteps⟩ := h
  have hclosed := prefixClosed_poolFresh
  induction hsteps with
  | nil =>
    rw [List.flatMap_nil, List.append_nil] at hpool ⊢
    have hheld := touchI2cDxeEntry_held entries
    exact ⟨Custody.kept_of_reaches hclosed hheld hentry hpool Custody.kept_nil,
      (World.returns_of_wpS hheld hentry (path_recording hclosed hpool) :)⟩
  | @snoc d₁ d₂ steps hsteps call t hstep ih =>
    rw [List.flatMap_append, List.flatMap_singleton, ← List.append_assoc] at hpool ⊢
    obtain ⟨hkept, hcustodian⟩ := ih (hclosed _ _ hpool)
    have hheld := wpS_touchDispatch_held hcustodian call
    exact ⟨Custody.kept_of_reaches hclosed hheld hstep hpool hkept,
      (World.returns_of_wpS hheld hstep (path_recording hclosed hpool) :)⟩

/-- **Nothing is used that is not held.** At every moment of every run, whatever the environment
answers and in whatever order the driver is called, each event has been armed, cancelled, signalled
and closed only while it was held, the protocol installed only with the state, every pool allocation
and the state given back only while they were held, and all of them acquired only while not. -/
theorem kept_of_performed {t : List (Event Uefi)} (h : Performed (touchI2cDxeEntry entries) t)
    (hpool : PoolFresh t) : touchCustody.Kept t := by
  cases h with
  | entry h =>
    exact Custody.kept_of_reaches prefixClosed_poolFresh (touchI2cDxeEntry_held entries) h hpool
      Custody.kept_nil
  | dispatch hrun h =>
    obtain ⟨hkept, hcustodian⟩ := custodian_of_run hrun (prefixClosed_poolFresh _ _ hpool)
    exact Custody.kept_of_reaches prefixClosed_poolFresh (wpS_touchDispatch_held hcustodian _) h
      hpool hkept

theorem kept_of_performed_panel : ∃ t, Performed panelEntry t ∧
    Resource.event .exitBoot ∈ touchCustody.held t ∧ Resource.pool 0x1000 ∈ touchCustody.held t ∧
    touchCustody.Kept t := by
  have hreturns : ((panelEntry.run {}).simulate panelMachine {}).2.isSome = true := by
    decide +kernel
  have hfresh : (List.range ((panelEntry.run {}).simulate panelMachine {}).1.length).all
      (poolFreshAt ((panelEntry.run {}).simulate panelMachine {}).1) = true := by decide +kernel
  have hevent : Resource.event .exitBoot ∈
      touchCustody.held ((panelEntry.run {}).simulate panelMachine {}).1 := by decide +kernel
  have hbuffer : Resource.pool 0x1000 ∈
      touchCustody.held ((panelEntry.run {}).simulate panelMachine {}).1 := by decide +kernel
  obtain ⟨r, hsome⟩ := Option.isSome_iff_exists.mp hreturns
  have hret := Prog.returns_simulate hsome
  exact ⟨_, .entry hret, hevent, hbuffer,
    kept_of_performed (.entry hret) (poolFresh_of_check hfresh)⟩

/-- **Nothing is leaked.** After every run the driver holds exactly what its state names, and each
event, pool buffer and state that it acquired otherwise has been given back exactly once. So nothing
is dispatched to a state that is gone, and a driver that is ready has its input buffer. A driver
that could not install its protocol holds nothing. -/
theorem held_of_run (h : Run (touchI2cDxeEntry entries) t₀ steps d)
    (hpool : PoolFresh (t₀ ++ steps.flatMap Step.trace)) :
    touchCustody.held (t₀ ++ steps.flatMap Step.trace) = d.holdings ∧
    (∀ call : Dispatch, call.enabled d = true → .dev ∈ d.holdings) ∧
    (d.ready = true → ∃ b, d.inputBuf = some b ∧ b.bytes.length = d.maxInputLength ∧
      .pool b.address ∈ d.holdings) ∧
    (d.installed = false → d.holdings = ∅) ∧
    ∀ r, (t₀ ++ steps.flatMap Step.trace).countP
        (fun ev ↦ touchCustody.acquires ev.op ev.ret = some r) =
      (t₀ ++ steps.flatMap Step.trace).countP (fun ev ↦ touchCustody.releases ev.op = some r) +
        if r ∈ d.holdings then 1 else 0 := by
  obtain ⟨hkept, hcustodian⟩ := custodian_of_run h hpool
  refine ⟨hcustodian.held, fun call ↦ hcustodian.installed, fun hready ↦ ?_, hcustodian.inert,
    fun r ↦ ?_⟩
  · obtain ⟨n, hinv⟩ := hcustodian.driver
    obtain ⟨b, hb, hlen⟩ := (hinv.ready hready).2.buffer
    exact ⟨b, hb, hlen, congrArg (Option.map PoolBuffer.address) hb⟩
  · simpa only [show touchCustody.held _ = d.holdings from hcustodian.held] using hkept.balance r

/-- The driver polls and leaves boot services. -/
private def panelPolled : Touch Unit := do
  panelEntry
  touchDispatches [.poll, .exitBoot]

theorem held_of_run_panel : ∃ t₀ steps d, Run panelEntry t₀ steps d ∧
    steps.map Step.dispatch = [.poll, .exitBoot] ∧ d.inputBuf.isSome = true ∧
    touchCustody.held (t₀ ++ steps.flatMap Step.trace) = d.holdings := by
  have hbuffer : ((panelPolled.run {}).simulate panelMachine {}).2.map
      (fun r ↦ r.2.inputBuf.isSome) = some true := by decide +kernel
  have hfresh : (List.range ((panelPolled.run {}).simulate panelMachine {}).1.length).all
      (poolFreshAt ((panelPolled.run {}).simulate panelMachine {}).1) = true := by decide +kernel
  obtain ⟨⟨_, d⟩, hsim, hbuffer⟩ := Option.map_eq_some_iff.mp hbuffer
  have hret := Prog.returns_simulate hsim
  have hpool := poolFresh_of_check hfresh
  generalize ((panelPolled.run {}).simulate panelMachine {}).1 = t at hret hpool
  obtain ⟨t₀, steps, rfl, hcalls, hrun⟩ := run_of_returns hret
  exact ⟨t₀, steps, d, hrun, hcalls, hbuffer, (held_of_run hrun hpool).1⟩

end

end TouchI2c
