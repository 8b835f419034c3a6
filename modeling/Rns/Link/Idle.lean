import Mathlib.Data.Fintype.Basic
import Mathlib.Tactic.Linarith
import Rns.Lib.Machine
import Rns.Link.Engine

/-!
# An idle link

Two active ends of a link that has no traffic but keepalives.  No end answers a keepalive, so one that
comes first puts off the other side's own: the side that sent it hears nothing for two intervals and
gives up.
-/

namespace Rns

open LinkEngine
open Function (update update_of_ne update_self)

/-- What `LinkManager::tick` does with the engine of a link: it ticks, and a keepalive is sent if one
is needed. -/
def LinkEngine.tickAndKeepalive (e : LinkEngine) (now : ℚ) : LinkEngine × Bool :=
  let e := (e.tick now).1
  if e.needsKeepalive now then (e.recordOutbound now true, true) else (e, false)

inductive Side where
  | initiator
  | responder
  deriving Repr, DecidableEq

instance : Fintype Side := ⟨{.initiator, .responder}, fun x => by cases x <;> decide⟩

def Side.other : Side → Side
  | .initiator => .responder
  | .responder => .initiator

@[simp] theorem Side.other_other (x : Side) : x.other.other = x := by
  cases x <;> rfl

@[simp] theorem Side.other_ne (x : Side) : x.other ≠ x := by
  cases x <;> decide

@[simp] theorem Side.eq_or_eq_other (x y : Side) : y = x ∨ y = x.other := by
  cases x <;> cases y <;> decide

/-- One end of the link, with the keepalives it sent that are still on their way, by the time they
were sent. -/
structure LinkEnd where
  engine : LinkEngine
  lastTick : ℚ
  inFlight : List ℚ
  deriving DecidableEq

structure IdleLink where
  clock : ℚ
  ends : Side → LinkEnd

/-- An end ticks, or a keepalive of the other end arrives. -/
inductive IdleEvent where
  | tick (side : Side) (now : ℚ)
  | arrive (side : Side) (sent now : ℚ)
  deriving DecidableEq

def IdleEvent.now : IdleEvent → ℚ
  | .tick _ now => now
  | .arrive _ _ now => now

variable {event : IdleEvent}

namespace IdleLink

def tick (s : IdleLink) (x : Side) (now : ℚ) : IdleLink :=
  let (engine, sends) := (s.ends x).engine.tickAndKeepalive now
  let inFlight := if sends then (s.ends x).inFlight ++ [now] else (s.ends x).inFlight
  ⟨now, update s.ends x ⟨engine, now, inFlight⟩⟩

/-- The keepalive is taken off the way and recorded. -/
def arrive (s : IdleLink) (x : Side) (sent now : ℚ) : IdleLink :=
  let sender := s.ends x.other
  let receiver := s.ends x
  if sent ∈ sender.inFlight then
    ⟨now, update (update s.ends x.other
        { sender with inFlight := sender.inFlight.erase sent })
      x { receiver with engine := (receiver.engine.recordInbound now).1 }⟩
  else s

def machine : Machine IdleLink IdleEvent Empty where
  step s
    | .tick x now => (s.tick x now, [])
    | .arrive x sent now => (s.arrive x sent now, [])

/-! ## Timely runs -/

/-- Time goes on, each end ticks at least every `d`, and each keepalive arrives within `l`. -/
def Timely (d l : ℚ) (s : IdleLink) (event : IdleEvent) : Prop :=
  s.clock ≤ event.now ∧ ∀ x, event.now ≤ (s.ends x).lastTick + d ∧
    ∀ sent ∈ (s.ends x).inFlight, event.now ≤ sent + l

/-- A keepalive arrives only at an end that has itself sent one less than an interval before, by the
time a tick and the way take. -/
def Crosses (K d l : ℚ) (s : IdleLink) : IdleEvent → Prop
  | .tick _ _ => True
  | .arrive x _ now => now + d + l < (s.ends x).engine.lastKeepalive + K

/-- Both ends are active and have heard of each other a short time ago; no keepalive is on its
way. -/
structure Fresh (K d l : ℚ) (s : IdleLink) : Prop where
  active : ∀ x, (s.ends x).engine.state = .active
  interval : ∀ x, (s.ends x).engine.keepaliveInterval = K
  staleTime : ∀ x, (s.ends x).engine.staleTime = Keepalive.computeStaleTime K
  none_inFlight : ∀ x, (s.ends x).inFlight = []
  lastTick_le : ∀ x, (s.ends x).lastTick ≤ s.clock
  lastSign_le : ∀ x, (s.ends x).engine.lastSign ≤ s.clock
  heard : ∀ x, s.clock + d + l < (s.ends x).engine.lastSign + K
  lastKeepalive_le : ∀ x, (s.ends x).engine.lastKeepalive ≤ (s.ends x.other).engine.lastSign

instance (d l : ℚ) (s : IdleLink) (event : IdleEvent) : Decidable (s.Timely d l event) :=
  inferInstanceAs (Decidable (_ ∧ _))

instance (K d l : ℚ) (s : IdleLink) : ∀ event, Decidable (s.Crosses K d l event)
  | .tick _ _ => .isTrue trivial
  | .arrive x _ now =>
    inferInstanceAs (Decidable (now + d + l < (s.ends x).engine.lastKeepalive + K))

/-! ## The invariant -/

/-- One end of a healthy link: its next keepalive will come before the other side gives up. -/
structure Healthy (K d l : ℚ) (s : IdleLink) (x : Side) : Prop where
  active : (s.ends x).engine.state = .active
  interval : (s.ends x).engine.keepaliveInterval = K
  staleTime : (s.ends x).engine.staleTime = K * 2
  lastSign_le : (s.ends x).engine.lastSign ≤ s.clock
  lastKeepalive_le : (s.ends x).engine.lastKeepalive ≤ s.clock
  /-- No keepalive was due at the last tick. -/
  not_due : (s.ends x).lastTick <
    max (s.ends x).engine.lastSign (s.ends x).engine.lastKeepalive + K
  /-- What this end heard last does not put off its next keepalive too far. -/
  not_late : (s.ends x).engine.lastSign + d + l <
    max (s.ends x.other).engine.lastSign (s.ends x).engine.lastKeepalive + K
  inFlight : (s.ends x).inFlight = [] ∧
      (s.ends x).engine.lastKeepalive ≤ (s.ends x.other).engine.lastSign ∨
    (s.ends x).inFlight = [(s.ends x).engine.lastKeepalive] ∧
      (s.ends x).engine.lastKeepalive + l < (s.ends x.other).engine.lastSign + K * 2

variable {K d l : ℚ} {s : IdleLink}

theorem Fresh.healthy (h : s.Fresh K d l) (hd : 0 ≤ d) (hl : 0 ≤ l) (x : Side) : s.Healthy K d l x where
  active := h.active x
  interval := h.interval x
  staleTime := h.staleTime x
  lastSign_le := h.lastSign_le x
  lastKeepalive_le := (h.lastKeepalive_le x).trans (h.lastSign_le x.other)
  not_due := by
    have htick := h.lastTick_le x
    have hheard := h.heard x
    have hmax := le_max_left (s.ends x).engine.lastSign (s.ends x).engine.lastKeepalive
    linarith
  not_late := by
    have hsign := h.lastSign_le x
    have hheard := h.heard x.other
    have hmax := le_max_left (s.ends x.other).engine.lastSign (s.ends x).engine.lastKeepalive
    linarith
  inFlight := .inl ⟨h.none_inFlight x, h.lastKeepalive_le x⟩

variable {x : Side} {e : LinkEngine} {now : ℚ}

theorem Healthy.sent_soon (h : s.Healthy K d l x) (hdl : d + l < K) (htimely : s.Timely d l event)
    (hheard : (s.ends x).engine.lastKeepalive ≤ (s.ends x.other).engine.lastSign) :
    event.now + l < (s.ends x.other).engine.lastSign + K * 2 := by
  have htick := (htimely.2 x).1
  have hlate := h.not_late
  rw [max_eq_left hheard] at hlate
  rcases lt_max_iff.1 (sub_lt_iff_lt_add.2 h.not_due) with hdue | hdue <;> linarith

theorem Healthy.lt_stale (h : s.Healthy K d l x) (hl : 0 ≤ l) (hdl : d + l < K)
    (htimely : s.Timely d l event) : event.now < (s.ends x.other).engine.lastSign + K * 2 := by
  rcases h.inFlight with ⟨-, hheard⟩ | ⟨hflight, hsoon⟩
  · have hsent := h.sent_soon hdl htimely hheard
    linarith
  · have harrives := (htimely.2 x).2 (s.ends x).engine.lastKeepalive (by simp [hflight])
    linarith

/-! ## A tick -/

theorem tick_of_lt (hactive : e.state = .active) (hlt : now < e.lastSign + e.staleTime) :
    (e.tick now).1 = e := by
  have hfresh : Keepalive.shouldGoStale e.lastSign e.staleTime now = false := by
    simpa [Keepalive.shouldGoStale] using hlt
  simp [LinkEngine.tick, hactive, hfresh]

theorem needsKeepalive_iff (hactive : e.state = .active) :
    e.needsKeepalive now ↔ max e.lastSign e.lastKeepalive + e.keepaliveInterval ≤ now := by
  simp [needsKeepalive, Keepalive.shouldSendKeepalive, hactive, ← le_sub_iff_add_le]

theorem tick_cases (hactive : (s.ends x).engine.state = .active)
    (hlt : now < (s.ends x).engine.lastSign + (s.ends x).engine.staleTime) :
    let e := (s.ends x).engine
    (max e.lastSign e.lastKeepalive + e.keepaliveInterval ≤ now ∧ s.tick x now =
      ⟨now, update s.ends x
        ⟨e.recordOutbound now true, now, (s.ends x).inFlight ++ [now]⟩⟩) ∨
    (now < max e.lastSign e.lastKeepalive + e.keepaliveInterval ∧ s.tick x now =
      ⟨now, update s.ends x ⟨e, now, (s.ends x).inFlight⟩⟩) := by
  unfold tick tickAndKeepalive
  simp only [tick_of_lt hactive hlt]
  by_cases hneeds : (s.ends x).engine.needsKeepalive now
  · exact .inl ⟨(needsKeepalive_iff hactive).1 hneeds, by simp [hneeds]⟩
  · exact .inr ⟨not_le.1 (mt (needsKeepalive_iff hactive).2 hneeds), by simp [hneeds]⟩

theorem Healthy.mono {s' : IdleLink} {y : Side} (h : s.Healthy K d l y)
    (hend : s'.ends y = s.ends y) (hclock : s.clock ≤ s'.clock)
    (hsign : (s.ends y.other).engine.lastSign ≤ (s'.ends y.other).engine.lastSign) :
    s'.Healthy K d l y where
  active := hend ▸ h.active
  interval := hend ▸ h.interval
  staleTime := hend ▸ h.staleTime
  lastSign_le := hend ▸ h.lastSign_le.trans hclock
  lastKeepalive_le := hend ▸ h.lastKeepalive_le.trans hclock
  not_due := hend ▸ h.not_due
  not_late := by
    rw [hend]
    have hmax := max_le_max_right (s.ends y).engine.lastKeepalive hsign
    linarith [h.not_late]
  inFlight := by
    rw [hend]
    refine h.inFlight.imp (And.imp_right fun hheard => hheard.trans hsign)
      (And.imp_right fun hsoon => ?_)
    linarith

theorem Healthy.of_update (h : ∀ x, s.Healthy K d l x) {now : ℚ} (hclock : s.clock ≤ now)
    {new : LinkEnd} (hsign : (s.ends x).engine.lastSign ≤ new.engine.lastSign)
    (hnew : Healthy K d l ⟨now, update s.ends x new⟩ x) (y : Side) :
    Healthy K d l ⟨now, update s.ends x new⟩ y := by
  obtain rfl | rfl := Side.eq_or_eq_other x y
  · exact hnew
  · refine (h x.other).mono (update_of_ne x.other_ne _ _) hclock ?_
    simpa using hsign

theorem Healthy.tick (h : ∀ x, s.Healthy K d l x) (hl : 0 ≤ l) (hd : 0 ≤ d) (hdl : d + l < K)
    {x : Side} {now : ℚ} (htimely : s.Timely d l (.tick x now)) (y : Side) :
    (s.tick x now).Healthy K d l y := by
  have hclock : s.clock ≤ now := htimely.1
  have hx := h x
  have hsign := hx.lastSign_le.trans hclock
  have hfresh : now < (s.ends x).engine.lastSign + (s.ends x).engine.staleTime := by
    have hlt := (h x.other).lt_stale hl hdl htimely
    rwa [Side.other_other, ← hx.staleTime] at hlt
  obtain ⟨hdue, htick⟩ | ⟨hdue, htick⟩ := tick_cases hx.active hfresh
  · rw [hx.interval] at hdue
    have hold := le_max_right (s.ends x).engine.lastSign (s.ends x).engine.lastKeepalive
    -- a keepalive on its way would have arrived before the next one is due
    obtain ⟨hnone, hheard⟩ : (s.ends x).inFlight = [] ∧
        (s.ends x).engine.lastKeepalive ≤ (s.ends x.other).engine.lastSign := by
      refine hx.inFlight.resolve_right fun hflight => ?_
      have harrived : now ≤ _ := (htimely.2 x).2 (s.ends x).engine.lastKeepalive (by simp [hflight])
      linarith
    have hsoon : now + l < _ := hx.sent_soon hdl htimely hheard
    have hlate := hx.not_late
    rw [max_eq_left hheard] at hlate
    rw [htick]
    refine Healthy.of_update h hclock ?_ ?_ y
    · exact le_rfl
    constructor <;> simp only [update_self, update_of_ne x.other_ne, hnone]
    · exact hx.active
    · exact hx.interval
    · exact hx.staleTime
    · exact hsign
    · exact le_rfl
    · have hmax := le_max_right (s.ends x).engine.lastSign now
      change now < max (s.ends x).engine.lastSign now + K
      linarith
    · have hmax := le_max_left (s.ends x.other).engine.lastSign now
      change (s.ends x).engine.lastSign + d + l < max (s.ends x.other).engine.lastSign now + K
      linarith
    · exact .inr ⟨rfl, hsoon⟩
  · rw [hx.interval] at hdue
    rw [htick]
    refine Healthy.of_update h hclock ?_ ?_ y
    · exact le_rfl
    constructor <;> simp only [update_self, update_of_ne x.other_ne]
    · exact hx.active
    · exact hx.interval
    · exact hx.staleTime
    · exact hsign
    · exact hx.lastKeepalive_le.trans hclock
    · exact hdue
    · exact hx.not_late
    · exact hx.inFlight

/-! ## An arrival -/

theorem lastSign_recordInbound (hsign : e.lastSign ≤ now) :
    (e.recordInbound now).1.lastSign = now := by
  simp only [lastSign, max_le_iff] at hsign
  unfold recordInbound lastSign
  split_ifs <;> simp only [max_eq_left hsign.1.2, max_eq_left hsign.2]

theorem recordInbound_of_active (hactive : e.state = .active) (now : ℚ) :
    (e.recordInbound now).1 = { e with lastInbound := now } := by
  simp [recordInbound, hactive]

theorem Healthy.arrive (h : ∀ x, s.Healthy K d l x) {x : Side} {sent now : ℚ}
    (htimely : s.Timely d l (.arrive x sent now)) (hcrosses : s.Crosses K d l (.arrive x sent now))
    (y : Side) : (s.arrive x sent now).Healthy K d l y := by
  have hclock : s.clock ≤ now := htimely.1
  have hx := h x
  have ho := h x.other
  have hsign := lastSign_recordInbound (hx.lastSign_le.trans hclock)
  unfold IdleLink.arrive
  dsimp only
  split_ifs with hsent
  swap
  · exact h y
  rw [recordInbound_of_active hx.active] at hsign ⊢
  obtain rfl | rfl := Side.eq_or_eq_other x y
  · constructor <;> simp only [update_self, update_of_ne y.other_ne, hsign]
    · exact hx.active
    · exact hx.interval
    · exact hx.staleTime
    · exact le_rfl
    · exact hx.lastKeepalive_le.trans hclock
    · have hmax := max_le_max_right (s.ends y).engine.lastKeepalive (hx.lastSign_le.trans hclock)
      linarith [hx.not_due]
    · have hown : now + d + l < (s.ends y).engine.lastKeepalive + K := hcrosses
      have hmax := le_max_right (s.ends y.other).engine.lastSign (s.ends y).engine.lastKeepalive
      linarith
    · exact hx.inFlight
  · -- what was on its way was the last keepalive
    have hflight : (s.ends x.other).inFlight = [sent] := by
      rcases ho.inFlight with ⟨hnone, -⟩ | ⟨hlast, -⟩
      · simp [hnone] at hsent
      · rw [hlast, List.mem_singleton] at hsent
        rw [hlast, hsent]
    constructor <;> simp only [update_self, update_of_ne x.other_ne,
      Side.other_other, hsign]
    · exact ho.active
    · exact ho.interval
    · exact ho.staleTime
    · exact ho.lastSign_le.trans hclock
    · exact ho.lastKeepalive_le.trans hclock
    · exact ho.not_due
    · have hlate := ho.not_late
      rw [Side.other_other] at hlate
      have hmax := max_le_max_right (s.ends x.other).engine.lastKeepalive
        (hx.lastSign_le.trans hclock)
      linarith
    · exact .inl ⟨by simp [hflight], ho.lastKeepalive_le.trans hclock⟩

/-! ## Every run -/

theorem Healthy.step (h : ∀ x, s.Healthy K d l x) (hl : 0 ≤ l) (hd : 0 ≤ d) (hdl : d + l < K)
    (htimely : s.Timely d l event) (hcrosses : s.Crosses K d l event) (x : Side) :
    (machine.step s event).1.Healthy K d l x := by
  cases event with
  | tick y now => exact Healthy.tick h hl hd hdl htimely x
  | arrive y sent now => exact Healthy.arrive h htimely hcrosses x

/-- In every timely run from a fresh start in which keepalives cross, no end is ever closed. -/
theorem idle_link_stays_up (K d l : ℚ) (hd : 0 ≤ d) (hl : 0 ≤ l) (hbound : d + 2 * l < K / 4)
    (s : IdleLink) (hfresh : s.Fresh K d l) (events : List IdleEvent)
    (hrun : machine.Meets (fun _ s event => s.Timely d l event ∧ s.Crosses K d l event) [] s events)
    (x : Side) : ((machine.run s events).1.ends x).engine.state ≠ .closed := by
  have hdl : d + l < K := by linarith
  have hkept : ∀ x, (machine.run s events).1.Healthy K d l x :=
    machine.run_keeps (I := fun s => ∀ x, s.Healthy K d l x)
      (fun _ _ _ h hok => Healthy.step h hl hd hdl hok.1 hok.2) (hfresh.healthy hd hl) hrun
  rw [(hkept x).active]
  decide

/-- An end that has just become active. -/
def activated (isInitiator : Bool) : LinkEnd where
  engine := { waiting zeroToken with
    state := .active
    isInitiator
    activatedAt := some 0
    keepaliveInterval := 5
    staleTime := 10 }
  lastTick := 0
  inFlight := []

def activatedLink : IdleLink where
  clock := 0
  ends
    | .initiator => activated true
    | .responder => activated false

theorem activatedLink_fresh : activatedLink.Fresh 5 1 (11 / 100) := by
  constructor <;> decide +kernel

def inStep : List IdleEvent :=
  (List.range 5).flatMap (fun n => [.tick .initiator (n + 1), .tick .responder (n + 1)]) ++
    [.arrive .initiator 5 (51 / 10), .arrive .responder 5 (51 / 10)] ++
    (List.range 6).flatMap fun n => [.tick .initiator (n + 6), .tick .responder (n + 6)]

theorem idle_link_stays_up_in_step :
    ((machine.run activatedLink inStep).1.ends .initiator).engine.state ≠ .closed :=
  idle_link_stays_up 5 1 (11 / 100) (by norm_num) (by norm_num) (by norm_num) activatedLink
    activatedLink_fresh inStep (by decide +kernel) .initiator

def outOfStep : List IdleEvent :=
  (List.range 5).flatMap (fun n => [.tick .responder (n + 9 / 10), .tick .initiator (n + 1)]) ++
    [.arrive .responder 5 (511 / 100)] ++
    (List.range 6).flatMap fun n => [.tick .responder (n + 59 / 10), .tick .initiator (n + 6)]

/-- The initiator's keepalive puts off the responder's, and the initiator closes a link on which
nothing was late. -/
theorem keepalive_silences_other_side :
    activatedLink.Fresh 5 1 (11 / 100) ∧ (1 : ℚ) + 2 * (11 / 100) < 5 / 4 ∧
      machine.Meets (fun _ s event => s.Timely 1 (11 / 100) event) [] activatedLink outOfStep ∧
      ((machine.run activatedLink outOfStep).1.ends .initiator).engine.state = .closed :=
  ⟨activatedLink_fresh, by norm_num, by decide +kernel, by decide +kernel⟩

end IdleLink

end Rns
