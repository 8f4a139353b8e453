import Interpose.Proofs.Registry.Evolves
import Interpose.Registry.Records
import Mathlib.Logic.Relation

/-!
A handle is there exactly while a patched body is to be taken back. The records do not say so, and
no part of a call looks after it for itself: an installation that fails leaves the handle as it is.
But only one errand is out for a method at any time, and its phase tells which. So the slots of a
registry hold all that the records can, whatever calls come between the parts of a call.
-/

set_option autoImplicit false
set_option relaxedAutoImplicit false

namespace Interpose

open Relation (ReflTransGen)

/-! ### One record -/

def Phase.Holds : Phase → Prop
  | .installed | .uninstalling => True
  | .unpatched | .installing => False

def Record.Tied (record : Record) : Prop := record.handle.isSome ↔ record.phase.Holds

/-- The state in which a patching ends. -/
def PatchState.patched : Except PatchError Handle → PatchState
  | .ok handle => .installed handle
  | .error _ => .unpatched

/-- The state in which a restoring ends. -/
def PatchState.restored (handle : Handle) : Except HostError Unit → PatchState
  | .ok () => .unpatched
  | .error _ => .installed handle

theorem Slot.record_injective : Function.Injective Slot.record := by
  rintro ⟨m, name, points, state, searches⟩ ⟨m', name', points', state', searches'⟩ same
  cases state <;> cases state' <;>
    simp_all [Slot.record, PatchState.phase, PatchState.handle?]

theorem Phase.eq_installing {state : PatchState} (phase : state.phase = .installing) :
    state = .installing := by
  cases state with
  | installing => rfl
  | unpatched | installed _ | uninstalling _ => cases phase

theorem Phase.eq_uninstalling {state : PatchState} (phase : state.phase = .uninstalling) :
    ∃ handle, state = .uninstalling handle := by
  cases state with
  | uninstalling handle => exact ⟨handle, rfl⟩
  | unpatched | installing | installed _ => cases phase

theorem Errand.eq_iff {e f : Errand} (own : f.method = e.method) :
    f = e ↔ e.phase = f.phase := by
  cases e <;> cases f <;> simp_all [Errand.method, Errand.phase]

theorem Slot.phase_ne {slot : Slot}
    (settled : slot.state = .unpatched ∨ ∃ handle, slot.state = .installed handle) (e : Errand) :
    slot.record.phase ≠ e.phase := by
  obtain ⟨m, name, points, state, searches⟩ := slot
  rcases settled with same | ⟨handle, same⟩ <;> obtain rfl := same <;> cases e <;> nofun

namespace Record

variable {slot : Slot} {record : Record}

/-- A record with a handle for its phase is the record of one slot. -/
theorem tied_iff : record.Tied ↔ ∃! slot : Slot, slot.record = record := by
  constructor
  · refine fun tied => existsUnique_of_exists_of_unique ?_
      fun _ _ first second => Slot.record_injective (first.trans second.symm)
    obtain ⟨m, name, points, phase, handle, searches⟩ := record
    cases phase <;> cases handle <;> simp only [Tied, Phase.Holds] at tied
    case unpatched.none => exact ⟨⟨m, name, points, .unpatched, searches⟩, rfl⟩
    case installing.none => exact ⟨⟨m, name, points, .installing, searches⟩, rfl⟩
    case installed.some handle => exact ⟨⟨m, name, points, .installed handle, searches⟩, rfl⟩
    case uninstalling.some handle =>
      exact ⟨⟨m, name, points, .uninstalling handle, searches⟩, rfl⟩
    all_goals simp at tied
  · rintro ⟨⟨m, name, points, state, searches⟩, rfl, -⟩
    cases state <;> simp [Tied, Slot.record, PatchState.phase, PatchState.handle?, Phase.Holds]

theorem record_tied (slot : Slot) : slot.record.Tied :=
  tied_iff.mpr ⟨slot, rfl, fun _ same => Slot.record_injective same⟩

theorem beginInstall_record (slot : Slot) : slot.record.beginInstall =
    match slot.state with
    | .installed handle => (some (.ok ⟨handle, false⟩), slot.record)
    | .installing | .uninstalling _ => (some (.error (.busy slot.name)), slot.record)
    | .unpatched =>
      (none, { slot with state := .installing, searches := slot.searches + 1 }.record) := by
  obtain ⟨m, name, points, state, searches⟩ := slot
  cases state <;> rfl

theorem install_answered {after : Record} {answer : Except PatchError InstallOutcome}
    (begun : slot.record.beginInstall = (some answer, after)) : after = slot.record := by
  rw [beginInstall_record] at begun
  split at begun <;> simp_all

theorem install_asked {after : Record} (begun : slot.record.beginInstall = (none, after)) :
    slot.state = .unpatched ∧
      after = { slot with state := .installing, searches := slot.searches + 1 }.record := by
  rw [beginInstall_record] at begun
  split at begun <;> simp_all

theorem endInstall_record (slot : Slot) (result : Except PatchError Handle)
    (installing : slot.state = .installing) : slot.record.endInstall result =
      { slot with state := .patched result }.record := by
  obtain ⟨m, name, points, state, searches⟩ := slot
  obtain rfl : state = .installing := installing
  cases result <;> rfl

theorem beginUninstall_record (slot : Slot) : slot.record.beginUninstall =
    match slot.state with
    | .unpatched => (.error (.ok false), slot.record)
    | .installing | .uninstalling _ => (.error (.error (.busy slot.name)), slot.record)
    | .installed handle => (.ok handle, { slot with state := .uninstalling handle }.record) := by
  obtain ⟨m, name, points, state, searches⟩ := slot
  cases state <;> rfl

theorem uninstall_answered {after : Record} {answer : Except PatchError Bool}
    (begun : slot.record.beginUninstall = (.error answer, after)) : after = slot.record := by
  rw [beginUninstall_record] at begun
  split at begun <;> simp_all

theorem uninstall_asked {after : Record} {handle : Handle}
    (begun : slot.record.beginUninstall = (.ok handle, after)) :
    slot.state = .installed handle ∧
      after = { slot with state := .uninstalling handle }.record := by
  rw [beginUninstall_record] at begun
  split at begun
  case h_4 there installed =>
    obtain ⟨same, rfl⟩ := Prod.mk.inj begun
    obtain rfl := Except.ok.inj same
    exact ⟨installed, rfl⟩
  all_goals cases begun

theorem endUninstall_record (slot : Slot) (result : Except HostError Unit) (handle : Handle)
    (uninstalling : slot.state = .uninstalling handle) : slot.record.endUninstall result =
      { slot with state := .restored handle result }.record := by
  obtain ⟨m, name, points, state, searches⟩ := slot
  obtain rfl : state = .uninstalling handle := uninstalling
  cases result <;> rfl

end Record

/-! ### Calls in parts -/

namespace Desk

variable {d after : Desk} {t : Records} {es : List Errand} {m : MethodId} {record : Record}

/-- Every handle is there for its phase, and there is one errand for each method on its way. -/
structure Tied (d : Desk) : Prop where
  records : ∀ m record, d.records m = some record → record.Tied
  once : d.errands.Nodup
  errands : ∀ e : Errand,
    e ∈ d.errands ↔ ∃ record, d.records e.method = some record ∧ record.phase = e.phase

theorem Tied.slot (tied : Tied ⟨t, es⟩) (found : t m = some record) :
    ∃ slot : Slot, slot.record = record :=
  (Record.tied_iff.mp (tied.records m record found)).exists

theorem Tied.mem_iff (tied : Tied ⟨t, es⟩) (found : t m = some record) {e : Errand}
    (own : e.method = m) : e ∈ es ↔ record.phase = e.phase := by
  subst own
  simp [tied.errands e, found]

theorem Tied.update (tied : Tied ⟨t, es⟩) {fs : List Errand} (fits : record.Tied)
    (once : fs.Nodup) (others : ∀ e : Errand, e.method ≠ m → (e ∈ fs ↔ e ∈ es))
    (own : ∀ e : Errand, e.method = m → (e ∈ fs ↔ record.phase = e.phase)) :
    Tied ⟨Function.update t m (some record), fs⟩ where
  records k there found := by
    by_cases same : k = m
    · subst same
      obtain rfl : record = there := by simpa using found
      exact fits
    · exact tied.records k there (by simpa [same] using found)
  once := once
  errands e := by
    by_cases same : e.method = m
    · simp [own e same, same]
    · simpa [same] using (others e same).trans (tied.errands e)

theorem Tied.touch (tied : Tied ⟨t, es⟩) {after : Record} (found : t m = some record)
    (fits : after.Tied) (same : after.phase = record.phase) :
    Tied ⟨Function.update t m (some after), es⟩ :=
  tied.update fits tied.once (fun _ _ => Iff.rfl) fun e own => by
    rw [same]
    exact tied.mem_iff found own

theorem Tied.add (tied : Tied ⟨t, es⟩) (m : MethodId) (name : String) (points : List Point) :
    Tied ⟨t.add m name points, es⟩ := by
  unfold Records.add
  split
  · next absent =>
    refine tied.update (by simp [Record.Tied, Phase.Holds]) tied.once (fun _ _ => Iff.rfl) ?_
    rintro e rfl
    cases e <;> simp [tied.errands, absent, Errand.phase]
  · next record found =>
    split
    · next unpatched =>
      exact tied.touch found (tied.records m record found) rfl
    · exact tied

theorem Tied.push (tied : Tied ⟨t, es⟩) {after : Record} {e : Errand}
    (found : t e.method = some record) (settled : ∀ e : Errand, record.phase ≠ e.phase)
    (fits : after.Tied) (sent : after.phase = e.phase) :
    Tied ⟨Function.update t e.method (some after), e :: es⟩ := by
  have none : ∀ f : Errand, f.method = e.method → f ∉ es := fun f own member =>
    settled f ((tied.mem_iff found own).mp member)
  refine tied.update fits (List.nodup_cons.mpr ⟨none e rfl, tied.once⟩) ?_ fun f own => ?_
  · rintro f other
    have : f ≠ e := fun same => other (congrArg _ same)
    simp [this]
  · rw [sent, List.mem_cons, or_iff_left (none f own), Errand.eq_iff own]

/-- An errand finds its method as it left it. When it is over, there is none for the method. -/
theorem Tied.pop (tied : Tied ⟨t, es⟩) {after : Record} {e : Errand} (member : e ∈ es)
    (found : t e.method = some record) (settled : ∀ e : Errand, after.phase ≠ e.phase)
    (fits : after.Tied) :
    Tied ⟨Function.update t e.method (some after), es.erase e⟩ := by
  have sent := (tied.mem_iff found rfl).mp member
  refine tied.update fits (tied.once.erase e) ?_ fun f own => ?_
  · rintro f other
    have : f ≠ e := fun same => other (congrArg _ same)
    simp [tied.once.mem_erase_iff, this]
  · have out := tied.mem_iff found own
    rw [tied.once.mem_erase_iff]
    refine ⟨?_, fun same => absurd same (settled f)⟩
    rintro ⟨other, there⟩
    exact absurd ((Errand.eq_iff own).mpr (sent.symm.trans (out.mp there))) other

theorem Step.tied (step : Step d after) (tied : d.Tied) : after.Tied := by
  cases step with
  | add m name points => exact tied.add m name points
  | @installAnswered t es m record after answer found answered =>
    obtain ⟨slot, rfl⟩ := tied.slot found
    obtain rfl := Record.install_answered answered
    exact tied.touch found (tied.records m _ found) rfl
  | @patch t es m record after found asked =>
    obtain ⟨slot, rfl⟩ := tied.slot found
    obtain ⟨unpatched, rfl⟩ := Record.install_asked asked
    exact tied.push (e := .patch m) found (Slot.phase_ne (.inl unpatched))
      (Record.record_tied _) rfl
  | @patched t es m record result member found =>
    obtain ⟨slot, rfl⟩ := tied.slot found
    have installing := Phase.eq_installing ((tied.mem_iff found rfl).mp member)
    rw [Record.endInstall_record slot result installing]
    refine tied.pop (e := .patch m) member found (Slot.phase_ne ?_) (Record.record_tied _)
    cases result with
    | ok handle => exact .inr ⟨handle, rfl⟩
    | error e => exact .inl rfl
  | @uninstallAnswered t es m record after answer found answered =>
    obtain ⟨slot, rfl⟩ := tied.slot found
    obtain rfl := Record.uninstall_answered answered
    exact tied.touch found (tied.records m _ found) rfl
  | @restore t es m record after handle found asked =>
    obtain ⟨slot, rfl⟩ := tied.slot found
    obtain ⟨installed, rfl⟩ := Record.uninstall_asked asked
    exact tied.push (e := .restore m) found (Slot.phase_ne (.inr ⟨handle, installed⟩))
      (Record.record_tied _) rfl
  | @restored t es m record result member found =>
    obtain ⟨slot, rfl⟩ := tied.slot found
    obtain ⟨handle, uninstalling⟩ := Phase.eq_uninstalling ((tied.mem_iff found rfl).mp member)
    rw [Record.endUninstall_record slot result handle uninstalling]
    refine tied.pop (e := .restore m) member found (Slot.phase_ne ?_) (Record.record_tied _)
    cases result with
    | ok _ => exact .inl rfl
    | error e => exact .inr ⟨handle, rfl⟩

def empty : Desk := ⟨fun _ => none, []⟩

theorem empty_tied : empty.Tied :=
  ⟨nofun, .nil, by simp [empty]⟩

theorem tied_of_steps (steps : ReflTransGen Step empty d) : d.Tied := by
  induction steps with
  | refl => exact empty_tied
  | tail _ step tied => exact step.tied tied

/-- Every record is that of a slot, and between calls its handle is there exactly if the patch is
installed. -/
theorem record_of_slot (steps : ReflTransGen Step empty d) (found : d.records m = some record) :
    (∃! slot : Slot, slot.record = record) ∧
      (d.errands = [] → (record.handle.isSome ↔ record.phase = .installed)) := by
  have tied := tied_of_steps steps
  refine ⟨Record.tied_iff.mp (tied.records m record found), fun idle => ?_⟩
  have none : ∀ e : Errand, e.method = m → record.phase ≠ e.phase := fun e own same => by
    have := (tied.mem_iff found own).mpr same
    simp [idle] at this
  refine (tied.records m record found).trans ?_
  cases phase : record.phase with
  | unpatched | installed => simp [Phase.Holds]
  | installing => exact absurd phase (none (.patch m) rfl)
  | uninstalling => exact absurd phase (none (.restore m) rfl)

end Desk

/-! ### The registry in records -/

namespace Registry

variable {r s t : Registry} {m : MethodId} {slot : Slot} {es : List Enrollment}

theorem records_modify (found : r.find? m = some slot) {f : Slot → Slot}
    (named : ∀ slot, (f slot).method = slot.method) :
    (r.modify m f).records = Function.update r.records m (some (f slot).record) := by
  funext k
  rw [records, find_modify r m k named]
  by_cases same : k = m
  · subst same
    simp [found]
  · simp [same, records]

theorem records_start (found : r.find? m = some slot) : (r.startInstall m).records =
    Function.update r.records m
      (some { slot with state := .installing, searches := slot.searches + 1 }.record) :=
  records_modify found fun _ => rfl

theorem records_set (found : r.find? m = some slot) (state : PatchState) :
    (r.setState m state).records =
      Function.update r.records m (some { slot with state }.record) :=
  records_modify found fun _ => rfl

theorem records_add {name : String} {points : List (Point × Callback)}
    (added : r.add m name points = .ok t) :
    t.records = r.records.add m name (points.map (·.1)) := by
  unfold add at added
  split at added
  · cases added
  split at added
  · next absent =>
    cases added
    funext k
    simp only [find?] at absent
    by_cases same : k = m
    · subst same
      simp [records, Records.add, find?, List.find?_append, absent, Slot.record, PatchState.phase,
        PatchState.handle?]
    · simp [records, Records.add, find?, List.find?_append, absent, same, Ne.symm same]
  · next slot found =>
    split at added
    · next unpatched =>
      cases added
      have changed := records_modify found
        (f := fun s => { s with points := s.points ++ points.map (·.1) }) fun _ => rfl
      refine changed.trans ?_
      simp [records, Records.add, found, Slot.record, unpatched, PatchState.phase]
    · cases added

theorem step_patch (found : r.find? m = some slot) (unpatched : slot.state = .unpatched)
    (errands : List Errand) : Desk.Step ⟨r.records, errands⟩
      ⟨(r.startInstall m).records, .patch m :: errands⟩ := by
  rw [records_start found]
  exact .patch (by rw [records, found]; rfl) (by rw [Record.beginInstall_record, unpatched])

theorem step_patched (found : r.find? m = some slot) (installing : slot.state = .installing)
    (result : Except PatchError Handle) (errands : List Errand) :
    Desk.Step ⟨r.records, .patch m :: errands⟩
      ⟨(r.setState m (.patched result)).records, errands⟩ := by
  have step : Desk.Step ⟨r.records, .patch m :: errands⟩
      ⟨Function.update r.records m (some (slot.record.endInstall result)), _⟩ :=
    .patched result List.mem_cons_self (by rw [records, found]; rfl)
  rwa [Record.endInstall_record slot result installing, ← records_set found,
    List.erase_cons_head] at step

theorem step_restore {handle : Handle} (found : r.find? m = some slot)
    (installed : slot.state = .installed handle) (errands : List Errand) :
    Desk.Step ⟨r.records, errands⟩
      ⟨(r.setState m (.uninstalling handle)).records, .restore m :: errands⟩ := by
  rw [records_set found]
  exact .restore (by rw [records, found]; rfl) (by rw [Record.beginUninstall_record, installed])

theorem step_restored {handle : Handle} (found : r.find? m = some slot)
    (uninstalling : slot.state = .uninstalling handle) (result : Except HostError Unit)
    (errands : List Errand) : Desk.Step ⟨r.records, .restore m :: errands⟩
      ⟨(r.setState m (.restored handle result)).records, errands⟩ := by
  have step : Desk.Step ⟨r.records, .restore m :: errands⟩
      ⟨Function.update r.records m (some (slot.record.endUninstall result)), _⟩ :=
    .restored result List.mem_cons_self (by rw [records, found]; rfl)
  rwa [Record.endUninstall_record slot result handle uninstalling, ← records_set found,
    List.erase_cons_head] at step

/-- Whatever happens to a registry happens to its records, part by part. Errands that are out in the
meantime make no difference. -/
theorem Evolves.steps (evolves : Evolves r es t) (errands : List Errand) :
    ReflTransGen Desk.Step ⟨r.records, errands⟩ ⟨t.records, errands⟩ := by
  induction evolves generalizing errands with
  | rest r => exact .refl
  | add _ added ih =>
    rw [records_add added]
    exact (ih errands).tail (.add _ _ _)
  | @patch r s t _ _ m slot state _ found unpatched inner outcome ih served =>
    have there := inner.keeps_busy (find_started found) (.inl rfl)
    have ends : ∃ result, state = .patched result := by
      rcases outcome with rfl | ⟨handle, rfl, -⟩
      · exact ⟨.error (.busy slot.name), rfl⟩
      · exact ⟨.ok handle, rfl⟩
    obtain ⟨result, rfl⟩ := ends
    exact (((ih errands).tail (step_patch found unpatched errands)).trans
      (served (.patch m :: errands))).tail (step_patched there rfl result errands)
  | @restore r s t _ _ m slot handle state _ found installed inner outcome ih served =>
    have there := inner.keeps_busy (find_set found _) (.inr ⟨handle, rfl⟩)
    have ends : ∃ result, state = .restored handle result := by
      rcases outcome with rfl | rfl
      · exact ⟨.ok (), rfl⟩
      · exact ⟨.error (.unknownMethod m), rfl⟩
    obtain ⟨result, rfl⟩ := ends
    exact (((ih errands).tail (step_restore found installed errands)).trans
      (served (.restore m :: errands))).tail (step_restored there rfl result errands)

end Registry

/-! ### Calls -/

variable {σ : Type} {host : Host σ} {w : World σ} {m : MethodId} {slot : Slot}

namespace World

theorem install_at_once (found : w.registry.find? m = some slot) {after : Record}
    {answer : Except PatchError InstallOutcome}
    (begun : slot.record.beginInstall = (some answer, after)) :
    w.install host m = (answer, w) := by
  rw [Record.beginInstall_record] at begun
  cases state : slot.state <;> simp_all [install, World.slot]

/-- An installation assigns the fields of one record before it turns to the host and once more
afterwards, and answers what comes of it. -/
theorem install_in_parts (operates : host.Operates) (found : w.registry.find? m = some slot)
    {begun : Record} (asked : slot.record.beginInstall = (none, begun)) :
    let started := w.withRegistry (w.registry.startInstall m)
    let served := started.activatePatched host m slot.name slot.points
    started.registry.records = Function.update w.registry.records m (some begun) ∧
      (w.install host m).1 = served.1.map (fun handle => ⟨handle, true⟩) ∧
      (w.install host m).2.registry.records =
        Function.update served.2.registry.records m (some (begun.endInstall served.1)) := by
  obtain ⟨unpatched, rfl⟩ := Record.install_asked asked
  intro started served
  refine ⟨Registry.records_start found, ?_⟩
  obtain ⟨result, after, es, done, inner, -⟩ := activatePatched_evolves operates started slot m
  have there := inner.keeps_busy (Registry.find_started found) (.inl rfl)
  have ended : served = (result, after) := done
  have started_eq : w.withRegistry (w.registry.startInstall m) = started := rfl
  rw [ended, Record.endInstall_record _ _ rfl]
  cases result with
  | ok _ | error _ =>
    simp only [install, World.slot, found, unpatched, started_eq, done]
    exact ⟨rfl, Registry.records_set there _⟩

theorem uninstall_at_once (found : w.registry.find? m = some slot) {after : Record}
    {answer : Except PatchError Bool}
    (begun : slot.record.beginUninstall = (.error answer, after)) :
    w.uninstall host m = (answer, w) := by
  rw [Record.beginUninstall_record] at begun
  cases state : slot.state <;> simp_all [uninstall, World.slot]

theorem uninstall_in_parts (operates : host.Operates) (found : w.registry.find? m = some slot)
    {handle : Handle} {begun : Record} (asked : slot.record.beginUninstall = (.ok handle, begun)) :
    let started := w.setState m (.uninstalling handle)
    let served := host.restore started m handle.saved
    started.registry.records = Function.update w.registry.records m (some begun) ∧
      (w.uninstall host m).1 =
        (served.1.map fun _ => true).mapError (.restoreFailed slot.name) ∧
      (w.uninstall host m).2.registry.records =
        Function.update served.2.registry.records m (some (begun.endUninstall served.1)) := by
  obtain ⟨installed, rfl⟩ := Record.uninstall_asked asked
  intro started served
  refine ⟨Registry.records_set found _, ?_⟩
  obtain ⟨es, inner⟩ := operates.restore started m handle.saved
  have there := inner.keeps_busy (Registry.find_set found _) (.inr ⟨handle, rfl⟩)
  have started_eq : w.setState m (.uninstalling handle) = started := rfl
  rw [Record.endUninstall_record _ _ handle rfl]
  rcases answered : host.restore started m handle.saved with ⟨answer, after⟩
  have ended : served = (answer, after) := answered
  rw [answered] at there
  rw [ended]
  cases answer with
  | ok _ | error _ =>
    simp only [uninstall, World.slot, found, installed, started_eq, answered]
    exact ⟨rfl, Registry.records_set there _⟩

end World

/-- A call over a host that calls back is some parts of calls on the records, and leaves no errand
behind. -/
theorem Call.steps (operates : host.Operates) (w : World σ) (c : Call) (errands : List Errand) :
    ReflTransGen Desk.Step ⟨w.registry.records, errands⟩
      ⟨(c.performOn host w).registry.records, errands⟩ := by
  obtain ⟨new, enrolls⟩ := c.enrolls operates w
  exact enrolls.evolves.steps errands

end Interpose
