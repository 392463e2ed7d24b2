import NameRegistry.Proofs.Record.Billing

/-! # Which billing events there can be

Each constructor checks the rules of the event that it makes, whatever it makes it from, so the
events that can be constructed are those that keep the rules. The loader of events checks no rule,
unlike those of grace periods, transfers and domains: it takes an event that breaks the rules as
readily as one that keeps them.
-/
namespace NameRegistry.Billing

open Record

structure EventCommon.Sound (c : EventCommon) : Prop where
  target_ne : c.targetId.isEmpty = false
  registrar_ne : c.registrarId.isEmpty = false

/-- A charge is marked as synthetic if and only if it says where it comes from, costs nothing less
than zero, and is for a positive number of years if and only if its reason is one that pays for
years, and otherwise for none. -/
structure OneTime.Sound (e : OneTime) : Prop where
  common : e.common.Sound
  synthetic_iff : Flag.synthetic ∈ e.flags ↔ e.synthetic.isSome
  cost_ge : e.cost.isNegative = false
  years_iff : (∃ years ∈ e.periodYears, 0 < years) ↔
    e.common.reason ∈ [Reason.create, .renew, .transfer]
  years_none : e.common.reason ∉ [Reason.create, .renew, .transfer] → e.periodYears = none

structure Recurring.Sound (e : Recurring) : Prop where
  common : e.common.Sound
  not_synthetic : Flag.synthetic ∉ e.flags
  event_le : e.common.eventTime ≤ e.recurrenceEndTime

structure Modification.Sound (e : Modification) : Prop where
  common : e.common.Sound
  description_ne : Text.isBlank e.description = false

/-- The event keeps the rules of its kind. Which charge a cancellation takes back is no matter of
its soundness. -/
def Event.Sound : Event → Prop
  | oneTime e => e.Sound
  | recurring e => e.Sound
  | cancellation e => e.common.Sound
  | modification e => e.Sound

@[simp] theorem EventCommon.check_eq_ok {c : EventCommon} {u : Unit} :
    c.check = .ok u ↔ c.Sound := by
  simp only [check, bind_eq_ok, requireField_eq_ok, Bool.not_eq_true', exists_const]
  exact ⟨fun h => ⟨h.1, h.2⟩, fun h => ⟨h.1, h.2⟩⟩

namespace OneTime

theorem Draft.checkPeriodYears_eq_ok {d : Draft} {u : Unit} : d.checkPeriodYears = .ok u ↔
    ((∃ years ∈ d.periodYears, 0 < years) ↔ d.common.reason ∈ [Reason.create, .renew, .transfer]) ∧
      (d.common.reason ∉ [Reason.create, .renew, .transfer] → d.periodYears = none) := by
  rw [checkPeriodYears]
  cases d.common.reason <;> cases d.periodYears <;> simp [Reason.paysForYears]

theorem Draft.origin_eq_ok {d : Draft} {o : Option SyntheticOrigin} : d.origin = .ok o ↔
    (Flag.synthetic ∈ d.flags ↔ o.isSome) ∧ d.syntheticCreationTime = o.map (·.creationTime) ∧
      d.cancellationMatchingEvent = o.map (·.cancellationMatchingEvent) := by
  rw [origin]
  constructor
  · intro h
    split at h
    · next hflag htime hevent =>
      cases h
      exact ⟨iff_of_true (of_decide_eq_true hflag) rfl, htime, hevent⟩
    · next hflag htime hevent =>
      cases h
      exact ⟨iff_of_false (of_decide_eq_false hflag) nofun, htime, hevent⟩
    · cases h
  · rintro ⟨hflag, htime, hevent⟩
    rw [htime, hevent]
    cases o with
    | none => rw [decide_eq_false fun h => nomatch hflag.1 h]; rfl
    | some o => rw [decide_eq_true (hflag.2 rfl)]; rfl

/-- A charge is built from the draft that its copy starts from, and only if it is sound. -/
theorem Draft.build_eq_ok {d : Draft} {e : OneTime} :
    d.build = .ok e ↔ d = e.toDraft ∧ e.Sound := by
  simp only [build, bind_eq_ok, EventCommon.check_eq_ok, field_eq_ok, require_eq_ok,
    Bool.not_eq_true', checkPeriodYears_eq_ok, origin_eq_ok, exists_const]
  constructor
  · rintro ⟨hcommon, cost, hcost, time, htime, hnegative, ⟨hyears, hnone⟩, o,
      ⟨hflag, hcreated, hmatching⟩, h⟩
    cases h
    refine ⟨?_, hcommon, hflag, hnegative, hyears, hnone⟩
    cases d
    simp_all [toDraft, matchingEvent]
  · rintro ⟨rfl, h⟩
    exact ⟨h.common, e.cost, rfl, e.billingTime, rfl, h.cost_ge,
      ⟨h.years_iff, h.years_none⟩, e.synthetic, ⟨h.synthetic_iff, rfl, rfl⟩, rfl⟩

end OneTime

theorem Recurring.endingAt_eq_ok {common : EventCommon} {flags : EnumSet Flag} {time : Instant}
    {e : Recurring} : endingAt common flags time = .ok e ↔ e = ⟨common, flags, time⟩ ∧ e.Sound := by
  simp only [endingAt, bind_eq_ok, EventCommon.check_eq_ok, require_eq_ok, exists_const,
    decide_eq_true_eq]
  constructor
  · rintro ⟨hcommon, hle, hflag, h⟩
    cases h
    exact ⟨rfl, hcommon, hflag, hle⟩
  · rintro ⟨rfl, h⟩
    exact ⟨h.common, h.event_le, h.not_synthetic, rfl⟩

theorem Cancellation.ofParts_eq_ok {common : EventCommon} {time : Instant}
    {oneTime recurring : Option BillingEventId} {e : Cancellation} :
    ofParts common time oneTime recurring = .ok e ↔
      e.common = common ∧ e.billingTime = time ∧ e.cancelled.oneTime? = oneTime ∧
      e.cancelled.recurring? = recurring ∧
        e.common.Sound := by
  simp only [ofParts, bind_eq_ok, EventCommon.check_eq_ok, exists_const]
  constructor
  · rintro ⟨hcommon, h⟩
    split at h
    · cases h
      exact ⟨rfl, rfl, rfl, rfl, hcommon⟩
    · cases h
      exact ⟨rfl, rfl, rfl, rfl, hcommon⟩
    · cases h
  · rintro ⟨rfl, rfl, rfl, rfl, hcommon⟩
    obtain ⟨common, time, cancelled⟩ := e
    cases cancelled <;> exact ⟨hcommon, rfl⟩

theorem Modification.of_eq_ok {common : EventCommon} {cost : Money} {description : String}
    {id : BillingEventId} {e : Modification} :
    of common cost description id = .ok e ↔ e = ⟨common, cost, description, id⟩ ∧ e.Sound := by
  simp only [of, bind_eq_ok, EventCommon.check_eq_ok, requireField_eq_ok, exists_const,
    Bool.not_eq_true']
  constructor
  · rintro ⟨hcommon, hdescription, h⟩
    cases h
    exact ⟨rfl, hcommon, hdescription⟩
  · rintro ⟨rfl, h⟩
    exact ⟨h.common, h.description_ne, rfl⟩

theorem CancelledEvent.oneTime?_eq_some {x : CancelledEvent} {event : BillingEventId} :
    x.oneTime? = some event ↔ x = .oneTime event := by
  cases x <;> simp [oneTime?]

theorem CancelledEvent.recurring?_eq_some {x : CancelledEvent} {event : BillingEventId} :
    x.recurring? = some event ↔ x = .recurring event := by
  cases x <;> simp [recurring?]

theorem CancelledEvent.kind_eq_recurring {x : CancelledEvent} :
    x.kind = .recurring ↔ x.recurring?.isSome := by
  cases x <;> simp [kind, recurring?]

namespace GracePeriod

variable {g : GracePeriod}

/-- A grace period names at most one event, so it names one if and only if it can be cancelled. -/
theorem hasBillingEvent_iff :
    g.hasBillingEvent = true ↔ ∃ x : CancelledEvent,
      x.oneTime? = g.oneTimeEvent ∧ x.recurring? = g.recurringEvent := by
  have hone := g.one_event
  rw [hasBillingEvent]
  cases hcharge : g.oneTimeEvent with
  | none =>
    cases hrecurring : g.recurringEvent with
    | none =>
      refine iff_of_false Bool.false_ne_true ?_
      rintro ⟨x, hcharge, hrecurring⟩
      cases x <;> simp [CancelledEvent.oneTime?, CancelledEvent.recurring?] at hcharge hrecurring
    | some event => exact iff_of_true rfl ⟨.recurring event, rfl, rfl⟩
  | some event =>
    have hrecurring : g.recurringEvent = none := by simpa [hcharge] using hone
    rw [hrecurring]
    exact iff_of_true rfl ⟨.oneTime event, rfl, rfl⟩

theorem cancellation_eq_ok {id : BillingEventId} {context : HistoryContext} {target : String}
    {k : Cancellation} :
    g.cancellation id context target = .ok k ↔ ∃ reason, g.status.reason? = some reason ∧
      k.common = ⟨id, reason, target, g.registrarId, context.modificationTime, context.history⟩ ∧
      k.billingTime = g.expirationTime ∧ k.cancelled.oneTime? = g.oneTimeEvent ∧
      k.cancelled.recurring? = g.recurringEvent ∧ k.common.Sound := by
  rw [cancellation, bind_eq_ok]
  simp only [require_eq_ok]
  constructor
  · rintro ⟨-, -, h⟩
    split at h
    · next reason hreason => exact ⟨reason, hreason, Cancellation.ofParts_eq_ok.1 h⟩
    · cases h
  · rintro ⟨reason, hreason, hcommon, htime, hcharge, hrecurring, hsound⟩
    refine ⟨(), hasBillingEvent_iff.2 ⟨_, hcharge, hrecurring⟩, ?_⟩
    rw [hreason]
    exact Cancellation.ofParts_eq_ok.2 ⟨hcommon, htime, hcharge, hrecurring, hsound⟩

end GracePeriod

namespace Event

/-- The events that the constructors make. A draft may be a copy of any charge with any changes, and
what a constructor starts from may itself have been loaded. -/
inductive Constructed : Event → Prop
  | built (d : OneTime.Draft) (e : OneTime) : d.build = .ok e → Constructed (oneTime e)
  | openEnded (common : EventCommon) (flags : EnumSet Flag) (e : Recurring) :
      Recurring.of common flags = .ok e → Constructed (recurring e)
  | endingAt (common : EventCommon) (flags : EnumSet Flag) (time : Instant) (e : Recurring) :
      Recurring.endingAt common flags time = .ok e → Constructed (recurring e)
  | withEnd (r : Recurring) (time : Instant) (e : Recurring) :
      r.withEnd time = .ok e → Constructed (recurring e)
  | cancelled (common : EventCommon) (time : Instant) (one repeating : Option BillingEventId)
      (e : Cancellation) :
      Cancellation.ofParts common time one repeating = .ok e → Constructed (cancellation e)
  | undone (g : GracePeriod) (id : BillingEventId) (context : HistoryContext) (targetId : String)
      (e : Cancellation) :
      g.cancellation id context targetId = .ok e → Constructed (cancellation e)
  | modified (common : EventCommon) (cost : Money) (description : String) (id : BillingEventId)
      (e : Modification) :
      Modification.of common cost description id = .ok e → Constructed (modification e)
  | refunded (id : BillingEventId) (charge : OneTime) (context : HistoryContext)
      (description : String) (e : Modification) :
      Modification.refund id charge context description = .ok e → Constructed (modification e)

/-- The events there can be at all. -/
inductive Obtainable : Event → Prop
  | constructed (e : Event) : Constructed e → Obtainable e
  | loaded (d : Datum) (e : Event) : load d = .ok e → Obtainable e

theorem Constructed.sound {e : Event} (h : Constructed e) : e.Sound := by
  cases h with
  | built d e h => exact (OneTime.Draft.build_eq_ok.1 h).2
  | openEnded common flags e h => exact (Recurring.endingAt_eq_ok.1 h).2
  | endingAt common flags time e h => exact (Recurring.endingAt_eq_ok.1 h).2
  | withEnd r time e h => exact (Recurring.endingAt_eq_ok.1 h).2
  | cancelled common time one repeating e h => exact (Cancellation.ofParts_eq_ok.1 h).2.2.2.2
  | undone g id context targetId e h =>
    obtain ⟨_, -, -, -, -, -, hsound⟩ := GracePeriod.cancellation_eq_ok.1 h
    exact hsound
  | modified common cost description id e h => exact (Modification.of_eq_ok.1 h).2
  | refunded id charge context description e h => exact (Modification.of_eq_ok.1 h).2

theorem Sound.constructed {e : Event} (h : e.Sound) : Constructed e := by
  cases e with
  | oneTime e => exact .built e.toDraft e (OneTime.Draft.build_eq_ok.2 ⟨rfl, h⟩)
  | recurring e =>
    exact .endingAt e.common e.flags e.recurrenceEndTime e (Recurring.endingAt_eq_ok.2 ⟨rfl, h⟩)
  | cancellation e =>
    exact .cancelled e.common e.billingTime e.cancelled.oneTime? e.cancelled.recurring? e
      (Cancellation.ofParts_eq_ok.2 ⟨rfl, rfl, rfl, rfl, h⟩)
  | modification e =>
    exact .modified e.common e.cost e.description e.event e (Modification.of_eq_ok.2 ⟨rfl, h⟩)

theorem sound_unsignedZero {e : Event} : e.unsignedZero.Sound ↔ e.Sound := by
  cases e with
  | oneTime e =>
    have hcost : e.unsignedZero.cost.isNegative = e.cost.isNegative :=
      e.cost.isNegative_unsignedZero
    constructor
    · exact fun h => ⟨h.common, h.synthetic_iff, hcost ▸ h.cost_ge, h.years_iff, h.years_none⟩
    · exact fun h => ⟨h.common, h.synthetic_iff, hcost.trans h.cost_ge, h.years_iff, h.years_none⟩
  | recurring e => rfl
  | cancellation e => rfl
  | modification e =>
    exact ⟨fun h => ⟨h.common, h.description_ne⟩, fun h => ⟨h.common, h.description_ne⟩⟩

/-- An event can be constructed if and only if it is sound, and it is loaded from its record whether
it is or not. -/
theorem constructed_iff_sound (e : Event) : (e.Constructed ↔ e.Sound) ∧
    ∃ e' : Event, load (store e) = .ok e' ∧ e'.Same e ∧ (e'.Sound ↔ e.Sound) :=
  ⟨⟨Constructed.sound, Sound.constructed⟩, e.unsignedZero, load_store_event e, e.same_unsignedZero,
    sound_unsignedZero⟩

end Event

namespace Sample

def sound : EventCommon :=
  ⟨⟨.ofNat 1⟩, .restore, "example.test", ⟨"registrar"⟩,
    ⟨12600 * 172800000000000, by decide, by decide, by decide⟩, ⟨⟨"1-TEST"⟩, ⟨.ofNat 9⟩⟩⟩

def negative : Event :=
  .oneTime ⟨sound, .empty, .ofMinor (-500) .usd, none, sound.eventTime, none, none⟩

def synthetic : Event := .recurring ⟨sound, .ofList [.synthetic], sound.eventTime⟩

def nameless : Event :=
  .cancellation ⟨{ sound with targetId := "" }, sound.eventTime, .oneTime ⟨.ofNat 2⟩⟩

def unexplained : Event := .modification ⟨sound, .ofMinor 500 .usd, " ", ⟨.ofNat 2⟩⟩

end Sample

/-- An event that is obtained by loading its record, though it could not be constructed. -/
def Event.OnlyLoaded (e : Event) : Prop := load (store e) = .ok e ∧ e.Obtainable ∧ ¬e.Sound

theorem Event.onlyLoaded_of_unsound {e : Event} (hzero : e.unsignedZero = e) (h : ¬e.Sound) :
    e.OnlyLoaded := by
  have hload : load (store e) = .ok e := (load_store_event e).trans (congrArg Except.ok hzero)
  exact ⟨hload, .loaded _ e hload, h⟩

/-- A charge below zero, a synthetic recurrence, a cancellation about nothing and an adjustment
without a description can be loaded. -/
theorem unsound_events_loaded : Sample.negative.OnlyLoaded ∧ Sample.synthetic.OnlyLoaded ∧
    Sample.nameless.OnlyLoaded ∧ Sample.unexplained.OnlyLoaded := by
  refine ⟨?negative, ?synthetic, ?nameless, ?unexplained⟩
  case negative =>
    exact Event.onlyLoaded_of_unsound (by decide) fun h => absurd h.cost_ge (by decide)
  case synthetic =>
    exact Event.onlyLoaded_of_unsound (by decide) fun h => absurd h.not_synthetic (by decide)
  case nameless =>
    exact Event.onlyLoaded_of_unsound (by decide) fun h => absurd h.target_ne (by decide)
  case unexplained =>
    exact Event.onlyLoaded_of_unsound (by decide) fun h => absurd h.description_ne (by decide)

end NameRegistry.Billing
