import Interpose.Proofs.Registry.Atomic
import Mathlib.Data.List.Forall2
import Mathlib.Data.List.Nodup

/-!
Installing several methods at once. The methods go in one after the other, and each leaves the
others alone; after a failure those that went in are taken back, the last one first. How far the
roll-back gets depends on the host only: it takes back one method after the other until the host
refuses.
-/

set_option autoImplicit false
set_option relaxedAutoImplicit false

namespace Interpose

open Interpose.Text (decimal)

theorem Registry.nodup_add {r after : Registry} {m : MethodId} {name : String}
    {points : List (Point × Callback)} (added : r.add m name points = .ok after)
    (distinct : r.methods.Nodup) : after.methods.Nodup := by
  unfold add at added
  split at added
  · cases added
  split at added
  · next new =>
    cases added
    have absent : m ∉ r.methods := by
      intro member
      obtain ⟨slot, known, rfl⟩ := List.mem_map.mp member
      simpa using List.find?_eq_none.mp new slot known
    have longer : (r.methods ++ [m]).Nodup :=
      List.Nodup.append distinct (List.nodup_singleton m) (by simpa using absent)
    simpa only [methods, List.map_append, List.map_cons, List.map_nil] using longer
  · split at added
    · cases added
      have same := methods_modify r m
        (f := fun s => { s with points := s.points ++ points.map (·.1) }) fun _ => rfl
      rw [← same] at distinct
      exact distinct
    · cases added

namespace World

variable {σ ε : Type} {host : Host σ} {entry : σ → MethodId → ε} {running : ε → Option Body}
  {w u v : World σ} {m k : MethodId} {ms : List MethodId} {handle : Handle}
  {outcomes : List InstallOutcome}

/-! ### What is seen of a method -/

/-- The state of a method in the registry, and the body that it runs. -/
def view (entry : σ → MethodId → ε) (running : ε → Option Body) (w : World σ) (k : MethodId) :
    Option PatchState × Option Body :=
  (w.registry.state? k, running (entry w.host k))

/-- Neither the registry nor the host knows anything else of a method. -/
structure SameAt (entry : σ → MethodId → ε) (k : MethodId) (w u : World σ) : Prop where
  slot : u.registry.find? k = w.registry.find? k
  entry : entry u.host k = entry w.host k

namespace SameAt

theorem refl : SameAt entry k w w := ⟨rfl, rfl⟩

theorem trans (first : SameAt entry k w u) (second : SameAt entry k u v) : SameAt entry k w v :=
  ⟨second.slot.trans first.slot, second.entry.trans first.entry⟩

theorem state (same : SameAt entry k w u) : u.registry.state? k = w.registry.state? k := by
  rw [Registry.state?, same.slot, Registry.state?]

theorem view (same : SameAt entry k w u) : u.view entry running k = w.view entry running k := by
  rw [World.view, same.state, same.entry, World.view]

end SameAt

theorem SameBut.at (elsewhere : SameBut entry m w u) (other : k ≠ m) : SameAt entry k w u :=
  ⟨(elsewhere.elsewhere k other).1, (elsewhere.elsewhere k other).2⟩

structure Newly (host : Host σ) (entry : σ → MethodId → ε) (running : ε → Option Body)
    (w u : World σ) (k : MethodId) (handle : Handle) : Prop where
  before : w.registry.state? k = some .unpatched
  after : u.registry.state? k = some (.installed handle)
  placed : Placed host entry running w u k handle

theorem Newly.view (newly : Newly host entry running w u k handle) :
    w.view entry running k = (some .unpatched, some handle.saved) := by
  rw [World.view, newly.before, newly.placed.saved]

theorem Newly.congr {before after : World σ} (newly : Newly host entry running w u k handle)
    (first : SameAt entry k before w) (last : SameAt entry k u after) :
    Newly host entry running before after k handle := by
  obtain ⟨x, y, granted, there⟩ := newly.placed.granted
  refine ⟨first.state.symm.trans newly.before, last.state.trans newly.after,
    newly.placed.method, ?_, ?_, newly.placed.loaded, x, y, granted, there.trans last.entry.symm⟩
  · rw [← first.entry]
    exact newly.placed.saved
  · rw [last.entry]
    exact newly.placed.patched

/-! ### Going in -/

inductive Installs (host : Host σ) :
    World σ → List MethodId → List InstallOutcome → World σ → Prop
  | none (w : World σ) : Installs host w [] [] w
  | more {w u v : World σ} {m : MethodId} {ms : List MethodId} {o : InstallOutcome}
      {outcomes : List InstallOutcome} : w.install host m = (.ok o, u) →
      Installs host u ms outcomes v → Installs host w (m :: ms) (o :: outcomes) v

def newMethods (outcomes : List InstallOutcome) : List MethodId :=
  (outcomes.filter InstallOutcome.isNew).map (·.handle.method)

def rollingBack (w : World σ) (ms : List MethodId) : World σ :=
  w.logged .warning
    ("Rolling back " ++ decimal ms.length ++ " method(s) after install failure")

theorem installs_cases (host : Host σ) (w : World σ) (ms : List MethodId) :
    (∃ outcomes u, Installs host w ms outcomes u) ∨
    ∃ front m back outcomes u e v, ms = front ++ m :: back ∧
      Installs host w front outcomes u ∧ u.install host m = (.error e, v) := by
  induction ms generalizing w with
  | nil => exact .inl ⟨[], w, .none w⟩
  | cons m ms ih =>
    match result : w.install host m with
    | (.error e, v) => exact .inr ⟨[], m, ms, [], w, e, v, rfl, .none w, result⟩
    | (.ok o, u) =>
      rcases ih u with ⟨outcomes, v, installs⟩ |
        ⟨front, k, back, outcomes, v, e, x, rfl, installs, failed⟩
      · exact .inl ⟨o :: outcomes, v, .more result installs⟩
      · exact .inr ⟨m :: front, k, back, o :: outcomes, v, e, x, rfl, .more result installs, failed⟩

theorem Installs.installEach (installs : Installs host w ms outcomes u)
    (done : List InstallOutcome) :
    w.installEach host done ms = (.ok (done.reverse ++ outcomes), u) := by
  induction installs generalizing done with
  | none w => rw [World.installEach, List.append_nil]
  | more installed _ ih =>
    simp only [World.installEach, installed, ih, List.reverse_cons, List.append_assoc,
      List.singleton_append]

theorem Installs.installEach_failing {e : PatchError} (installs : Installs host w ms outcomes u)
    (failed : u.install host m = (.error e, v)) (done : List InstallOutcome)
    (back : List MethodId) {new : List MethodId}
    (those : new = newMethods (done.reverse ++ outcomes)) :
    w.installEach host done (ms ++ m :: back) =
      (.error ((v.rollingBack new).rollBack host e new.reverse).1,
        ((v.rollingBack new).rollBack host e new.reverse).2) := by
  induction installs generalizing done with
  | none w =>
    have reversed : (done.filter InstallOutcome.isNew).map (·.handle.method) = new.reverse := by
      rw [those, newMethods, List.append_nil, List.filter_reverse, List.map_reverse,
        List.reverse_reverse]
    have count : (done.filter InstallOutcome.isNew).length = new.length := by
      rw [← List.length_map (·.handle.method), reversed, List.length_reverse]
    simp only [List.nil_append, World.installEach, failed, reversed, count, rollingBack]
  | more installed _ ih =>
    rw [List.cons_append, World.installEach, installed]
    exact ih failed _ (by simpa using those)

/-- How an installation leaves a method that it succeeds for. -/
def Settles (host : Host σ) (entry : σ → MethodId → ε) (running : ε → Option Body)
    (w u : World σ) (m : MethodId) (o : InstallOutcome) : Prop :=
  u.registry.state? m = some (.installed o.handle) ∧
    (o.isNew = false ∧ SameAt entry m w u ∨
      o.isNew = true ∧ Newly host entry running w u m o.handle)

theorem install_settles (atomic : host.Atomic entry running) {o : InstallOutcome}
    (installed : w.install host m = (.ok o, u)) :
    SameBut entry m w u ∧ Settles host entry running w u m o := by
  rcases w.install_steps atomic m with ⟨result, same, known⟩ |
    ⟨result, after, slot, done, found, unpatched, elsewhere, outcome⟩
  · rw [installed] at same
    obtain ⟨rfl, rfl⟩ := Prod.mk.inj same
    obtain ⟨old, there⟩ := known o rfl
    exact ⟨⟨rfl, fun _ _ => ⟨rfl, rfl⟩⟩, there, .inl ⟨old, .refl⟩⟩
  · rw [installed] at done
    obtain ⟨rfl, rfl⟩ := Prod.mk.inj done
    rcases outcome with ⟨e, impossible, -⟩ | ⟨handle, result, placed, there⟩
    · cases impossible
    · cases result
      have state : u.registry.state? m = some (.installed handle) := by
        simp [Registry.state?, there]
      refine ⟨elsewhere, state, .inr ⟨rfl, ?_, state, placed⟩⟩
      simp [Registry.state?, found, unpatched]

theorem install_failed (atomic : host.Atomic entry running) {e : PatchError}
    (failed : w.install host m = (.error e, u)) :
    (∀ k, k ≠ m → SameAt entry k w u) ∧ u.view entry running m = w.view entry running m := by
  rcases w.install_steps atomic m with ⟨result, same, -⟩ |
    ⟨result, after, slot, done, found, unpatched, elsewhere, outcome⟩
  · rw [failed] at same
    obtain ⟨-, rfl⟩ := Prod.mk.inj same
    exact ⟨fun _ _ => .refl, rfl⟩
  · rw [failed] at done
    obtain ⟨rfl, rfl⟩ := Prod.mk.inj done
    rcases outcome with ⟨e, -, still, there⟩ | ⟨handle, impossible, -⟩
    · refine ⟨fun k other => elsewhere.at other, ?_⟩
      simp [World.view, Registry.state?, still, there, found, unpatched]
    · cases impossible

theorem Settles.congr {before after : World σ} {o : InstallOutcome}
    (settles : Settles host entry running w u m o) (first : SameAt entry m before w)
    (last : SameAt entry m u after) : Settles host entry running before after m o := by
  obtain ⟨state, ⟨old, same⟩ | ⟨new, newly⟩⟩ := settles
  · exact ⟨last.state.trans state, .inl ⟨old, (first.trans same).trans last⟩⟩
  · exact ⟨last.state.trans state, .inr ⟨new, newly.congr first last⟩⟩

/-- Methods that go in one after the other each settle as if they were the only one. -/
theorem Installs.settles (atomic : host.Atomic entry running) (distinct : ms.Nodup)
    (installs : Installs host w ms outcomes u) {base : World σ}
    (start : ∀ k ∈ ms, SameAt entry k base w) : (∀ k, k ∉ ms → SameAt entry k w u) ∧
      List.Forall₂ (Settles host entry running base u) ms outcomes := by
  induction installs with
  | none w => exact ⟨fun _ _ => .refl, .nil⟩
  | @more w u v m ms o outcomes installed rest ih =>
    -- `base` stays while the world that the rest starts from moves on
    obtain ⟨new, distinct⟩ := List.nodup_cons.mp distinct
    obtain ⟨others, here⟩ := install_settles atomic installed
    have apart : ∀ k ∈ ms, k ≠ m := by
      rintro k member rfl
      exact new member
    obtain ⟨elsewhere, each⟩ := ih distinct fun k member =>
      (start k (List.mem_cons_of_mem _ member)).trans (others.at (apart k member))
    refine ⟨fun k outside => ?_, .cons ?_ each⟩
    · rw [List.mem_cons, not_or] at outside
      exact (others.at outside.1).trans (elsewhere k outside.2)
    · exact here.congr (start m List.mem_cons_self) (elsewhere m new)

theorem newMethods_settled
    (each : List.Forall₂ (Settles host entry running w u) ms outcomes) :
    (newMethods outcomes).Sublist ms ∧
      (∀ k ∈ newMethods outcomes, ∃ handle, Newly host entry running w u k handle) ∧
      ∀ k ∈ ms, k ∉ newMethods outcomes → SameAt entry k w u := by
  induction each with
  | nil => simp [newMethods]
  | @cons m o ms outcomes here rest ih =>
    obtain ⟨sub, newly, same⟩ := ih
    obtain ⟨-, ⟨old, unmoved⟩ | ⟨new, placed⟩⟩ := here
    · have drop : newMethods (o :: outcomes) = newMethods outcomes := by simp [newMethods, old]
      rw [drop]
      refine ⟨sub.cons m, newly, fun k member outside => ?_⟩
      rcases List.mem_cons.mp member with rfl | later
      · exact unmoved
      · exact same k later outside
    · have keep : newMethods (o :: outcomes) = m :: newMethods outcomes := by
        simp [newMethods, new, placed.placed.method]
      rw [keep]
      refine ⟨sub.cons_cons m, fun k member => ?_, fun k member outside => ?_⟩
      · rcases List.mem_cons.mp member with rfl | later
        · exact ⟨o.handle, placed⟩
        · exact newly k later
      · rw [List.mem_cons, not_or] at outside
        rcases List.mem_cons.mp member with rfl | later
        · exact absurd rfl outside.1
        · exact same k later outside.2

/-! ### Going back -/

/-- The host refuses to put the saved body of a method back that runs a patched one. -/
def Refuses (host : Host σ) (entry : σ → MethodId → ε) (u : World σ) (k : MethodId)
    (handle : Handle) (name : String) (e : PatchError) : Prop :=
  ∃ x y refusal, host.restore x k handle.saved = (.error refusal, y) ∧
    entry x.host k = entry u.host k ∧ e = .restoreFailed name refusal

inductive TakesBack (host : Host σ) : World σ → List MethodId → World σ → Prop
  | none (w : World σ) : TakesBack host w [] w
  | more {w u v : World σ} {m : MethodId} {ms : List MethodId} :
      w.uninstall host m = (.ok true, u) → TakesBack host u ms v → TakesBack host w (m :: ms) v

theorem TakesBack.rollBack (back : TakesBack host w ms u) (failure : PatchError) :
    w.rollBack host failure ms = (failure, u) := by
  induction back with
  | none w => rfl
  | more restored _ ih => simp only [World.rollBack, restored, ih]

theorem TakesBack.rollBack_failing {e : PatchError} (back : TakesBack host w ms u)
    (failed : u.uninstall host m = (.error e, v)) (failure : PatchError)
    (skipped : List MethodId) : w.rollBack host failure (ms ++ m :: skipped) = (e, v) := by
  induction back with
  | none w => rw [List.nil_append, World.rollBack, failed]
  | more restored _ ih => simp only [List.cons_append, World.rollBack, restored, ih failed]

theorem uninstall_new (atomic : host.Atomic entry running)
    (newly : Newly host entry running w u m handle) :
    (∃ e v name, u.uninstall host m = (.error e, v) ∧ (∀ k, SameAt entry k u v) ∧
      Refuses host entry u m handle name e) ∨
    ∃ v, u.uninstall host m = (.ok true, v) ∧ (∀ k, k ≠ m → SameAt entry k u v) ∧
      v.view entry running m = w.view entry running m := by
  rcases u.uninstall_steps atomic m with ⟨result, -, impossible⟩ |
    ⟨result, v, slot, known, done, found, installed, elsewhere, outcome⟩
  · exact absurd newly.after (impossible handle)
  have same : known = handle := by
    have state := newly.after
    simp only [Registry.state?, found, Option.map_some, installed, Option.some.injEq] at state
    exact PatchState.installed.inj state
  subst same
  rcases outcome with ⟨e, rfl, unmoved, there, x, y, refused, asked⟩ | ⟨rfl, restored, there⟩
  · refine .inl ⟨_, v, slot.name, done, fun k => ?_, x, y, e, refused, asked, rfl⟩
    by_cases here : k = m
    · subst here
      refine ⟨there.trans ?_, unmoved⟩
      rw [found, ← installed]
    · exact elsewhere.at here
  · refine .inr ⟨v, done, fun k other => elsewhere.at other, ?_⟩
    rw [newly.view]
    exact Prod.ext (by simp [World.view, Registry.state?, there]) restored

/-- Of methods that are new some are taken back and are as before. The others stay as they are, and
the host refuses to take back the first of them. -/
theorem takesBack_new (atomic : host.Atomic entry running) (distinct : ms.Nodup)
    (newly : ∀ k ∈ ms, ∃ handle, Newly host entry running w u k handle) :
    ∃ taken rest v, ms = taken ++ rest ∧ TakesBack host u taken v ∧
      (∀ k, k ∉ ms → SameAt entry k u v) ∧
      (∀ k ∈ taken, v.view entry running k = w.view entry running k) ∧
      (∀ k ∈ rest, ∃ handle, Newly host entry running w v k handle) ∧
      (rest = [] ∨ ∃ m skipped handle e x name, rest = m :: skipped ∧
        v.uninstall host m = (.error e, x) ∧ (∀ k, SameAt entry k v x) ∧
        Newly host entry running w v m handle ∧ Refuses host entry v m handle name e) := by
  induction ms generalizing u with
  | nil => exact ⟨[], [], u, rfl, .none u, fun _ _ => .refl, by simp, by simp, .inl rfl⟩
  | cons m ms ih =>
    obtain ⟨last, distinct⟩ := List.nodup_cons.mp distinct
    obtain ⟨handle, here⟩ := newly m List.mem_cons_self
    rcases uninstall_new atomic here with ⟨e, x, name, refused, still, refuses⟩ |
      ⟨x, done, elsewhere, before⟩
    · exact ⟨[], m :: ms, u, rfl, .none u, fun _ _ => .refl, by simp, newly,
        .inr ⟨m, ms, handle, e, x, name, rfl, refused, still, here, refuses⟩⟩
    · obtain ⟨taken, rest, v, rfl, back, outside, inside, stay, outcome⟩ :=
        ih distinct fun k member => by
          obtain ⟨handle, there⟩ := newly k (List.mem_cons_of_mem _ member)
          exact ⟨handle, there.congr .refl (elsewhere k fun same => last (same ▸ member))⟩
      refine ⟨m :: taken, rest, v, rfl, .more done back, fun k other => ?_, fun k member => ?_,
        stay, outcome⟩
      · rw [List.mem_cons, not_or] at other
        exact (elsewhere k other.1).trans (outside k other.2)
      · rcases List.mem_cons.mp member with rfl | later
        · rw [(outside k last).view, before]
        · exact inside k later

/-! ### What several calls preserve -/

section Preserves

variable {P : World σ → Prop} (installed : ∀ w m, P w → P (w.install host m).2)
  (uninstalled : ∀ w m, P w → P (w.uninstall host m).2)
  (logged : ∀ w severity text, P w → P (w.logged severity text))

include uninstalled

theorem rollBack_preserves (failure : PatchError) (ms : List MethodId) (holds : P w) :
    P (w.rollBack host failure ms).2 := by
  induction ms generalizing w with
  | nil => exact holds
  | cons m ms ih =>
    have step := uninstalled w m holds
    simp only [rollBack]
    split
    · next result => exact ih (by rwa [result] at step)
    · next result => rwa [result] at step

theorem uninstallEach_preserves (ms : List MethodId) (holds : P w) :
    P (w.uninstallEach host ms).2 := by
  induction ms generalizing w with
  | nil => exact holds
  | cons m ms ih =>
    have rest := ih (uninstalled w m holds)
    simp only [uninstallEach]
    split <;> exact rest

theorem uninstallAll_preserves (holds : P w) : P (w.uninstallAll host).2 := by
  have each := uninstallEach_preserves uninstalled w.registry.methods.reverse holds
  simp only [uninstallAll]
  split <;> next result => rwa [result] at each

include installed logged

theorem installEach_preserves (done : List InstallOutcome) (ms : List MethodId) (holds : P w) :
    P (w.installEach host done ms).2 := by
  induction ms generalizing w done with
  | nil => exact holds
  | cons m ms ih =>
    have step := installed w m holds
    simp only [installEach]
    split
    · next result => exact ih _ (by rwa [result] at step)
    · next result =>
      rw [result] at step
      exact rollBack_preserves uninstalled _ _ (logged _ _ _ step)

end Preserves

/-! ### Which methods are known -/

theorem install_methods (atomic : host.Atomic entry running) (w : World σ) (m : MethodId) :
    (w.install host m).2.registry.methods = w.registry.methods := by
  rcases w.install_steps atomic m with ⟨result, same, -⟩ |
    ⟨result, after, slot, done, -, -, elsewhere, -⟩
  · rw [same]
  · rw [done]
    exact elsewhere.methods

theorem uninstall_methods (atomic : host.Atomic entry running) (w : World σ) (m : MethodId) :
    (w.uninstall host m).2.registry.methods = w.registry.methods := by
  rcases w.uninstall_steps atomic m with ⟨result, same, -⟩ |
    ⟨result, after, slot, _, done, -, -, elsewhere, -⟩
  · rw [same]
  · rw [done]
    exact elsewhere.methods

theorem register_distinct (host : Host σ) (patch : MethodPatch)
    (distinct : w.registry.methods.Nodup) : (w.register host patch).2.registry.methods.Nodup := by
  unfold register
  split
  · exact distinct
  split
  · exact distinct
  · next added => exact Registry.nodup_add added distinct

/-! ### All methods -/

theorem Installs.failing_settles (atomic : host.Atomic entry running) {front back : List MethodId}
    {e : PatchError} (distinct : (front ++ m :: back).Nodup)
    (installs : Installs host w front outcomes u) (failed : u.install host m = (.error e, v)) :
    SameAt entry m w u ∧ (newMethods outcomes).Nodup ∧
      (∀ k ∈ newMethods outcomes, ∃ handle,
        Newly host entry running w (v.rollingBack (newMethods outcomes)) k handle) ∧
      ∀ k, k ∉ newMethods outcomes →
        (v.rollingBack (newMethods outcomes)).view entry running k = w.view entry running k := by
  obtain ⟨distinct, -, apart⟩ := List.nodup_append'.mp distinct
  have outside : m ∉ front := fun member => apart member List.mem_cons_self
  obtain ⟨elsewhere, each⟩ := installs.settles atomic distinct fun _ _ => .refl
  obtain ⟨sub, newly, same⟩ := newMethods_settled each
  obtain ⟨unmoved, still⟩ := install_failed atomic failed
  have onward : ∀ k, k ≠ m → SameAt entry k u (v.rollingBack (newMethods outcomes)) :=
    fun k other => (unmoved k other).trans ⟨rfl, rfl⟩
  refine ⟨elsewhere m outside, sub.nodup distinct, fun k member => ?_, fun k old => ?_⟩
  · obtain ⟨handle, here⟩ := newly k member
    have other : k ≠ m := by
      rintro rfl
      exact outside (sub.subset member)
    exact ⟨handle, here.congr .refl (onward k other)⟩
  · by_cases here : k = m
    · subst here
      exact still.trans (elsewhere k outside).view
    · rw [(onward k here).view]
      by_cases member : k ∈ front
      · exact (same k member old).view
      · exact (elsewhere k member).view

end World

end Interpose
