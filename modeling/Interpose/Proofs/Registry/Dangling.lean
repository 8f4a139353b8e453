import Interpose.Proofs.Registry.Assembled
import Interpose.Proofs.Registry.InstallAll
import Interpose.Proofs.Registry.UninstallAll

/-!
The host in memory refuses a body that has labels which stand nowhere, and the loader refuses it
too. So a body that was assembled from a loaded one is never refused for its labels, nor is the
loaded one when it is put back, whatever calls are made.
-/

set_option autoImplicit false
set_option relaxedAutoImplicit false

namespace Interpose

/-- The host found labels that stand nowhere, in a body that was to be activated or in one that was
to be restored. -/
inductive PatchError.Dangling : PatchError → Prop
  | activated {name : String} {labels : List Label} :
      Dangling (.host (.danglingLabels name labels))
  | restored {method name : String} {labels : List Label} :
      Dangling (.restoreFailed method (.danglingLabels name labels))

theorem Stream.WellFormed.dangling {s : Stream} (ok : s.WellFormed) :
    s.toBody.danglingLabels = [] :=
  Body.dangling_nil_iff.mpr ok.loads

namespace Assembly

variable {method : String} {body patched : Body} {points : List Point}
  {reports : List SpliceReport}

theorem spliceAll_wellFormed {s t : Stream} (ok : s.WellFormed)
    (spliced : spliceAll s points = (reports, .ok t)) : t.WellFormed := by
  induction points generalizing s reports with
  | nil =>
    cases spliced
    exact ok
  | cons p points ih =>
    have kept := p.apply_wellFormed ok
    match applied : p.apply s with
    | (.error e, u) => simp [spliceAll, applied] at spliced
    | (.ok r, u) =>
      rw [applied] at kept
      simp only [spliceAll, applied, Prod.mk.injEq] at spliced
      exact ih kept (Prod.ext rfl spliced.2)

theorem assemble_dangling (assembled : assemble method points body = (reports, .ok patched)) :
    body.danglingLabels = [] ∧ patched.danglingLabels = [] := by
  obtain ⟨s, t, loaded, spliced, rfl⟩ := assemble_ok assembled
  have after := spliceAll_wellFormed (Stream.ofBody_wellFormed loaded) spliced
  exact ⟨Body.dangling_nil_iff.mpr ⟨s, loaded⟩, after.dangling⟩

theorem assemble_failure {e : PatchError}
    (failed : assemble method points body = (reports, .error e)) : ¬e.Dangling := by
  intro dangling
  unfold assemble at failed
  split at failed
  · cases failed
    cases dangling
  next s _ =>
  split at failed
  · cases failed
    cases dangling
  next t _ =>
  have checked := (Prod.mk.inj failed).2
  unfold check at checked
  split at checked
  · cases checked
    cases dangling
  · split at checked
    · cases checked
      cases dangling
    · cases checked

end Assembly

namespace Memory

variable {h : Memory} {m : MethodId} {body : Body}

theorem loadBody_answer {name : String} {labels : List Label} :
    h.loadBody m ≠ .error (.danglingLabels name labels) := by
  intro refused
  unfold loadBody at refused
  split at refused
  · cases refused
  · split at refused <;> cases refused

theorem activate_answer (sound : body.danglingLabels = []) {name : String} {labels : List Label} :
    (h.activate m body).1 ≠ .error (.danglingLabels name labels) := by
  intro refused
  unfold activate at refused
  split at refused
  · cases refused
  · split at refused
    · cases refused
    · rw [sound] at refused
      cases refused

end Memory

namespace World

/-! ### Failures of the calls on all methods -/

section Failures

variable {σ : Type} {host : Host σ} {P : World σ → Prop} {F : PatchError → Prop} {w : World σ}
  (uninstalled : ∀ w m, P w → P (w.uninstall host m).2)
  (uninstallFails : ∀ {w m e}, P w → (w.uninstall host m).1 = .error e → F e)
  (installed : ∀ w m, P w → P (w.install host m).2)
  (installFails : ∀ {w m e}, P w → (w.install host m).1 = .error e → F e)
  (logged : ∀ w severity text, P w → P (w.logged severity text))

include uninstalled uninstallFails

theorem rollBack_fails {failure : PatchError} (fails : F failure) (ms : List MethodId)
    (holds : P w) : F (w.rollBack host failure ms).1 := by
  induction ms generalizing w with
  | nil => exact fails
  | cons m ms ih =>
    have after := uninstalled w m holds
    match result : w.uninstall host m with
    | (.ok _, u) =>
      rw [result] at after
      simpa only [rollBack, result] using ih after
    | (.error e, u) =>
      have fails := uninstallFails holds (congrArg Prod.fst result)
      simpa only [rollBack, result] using fails

theorem uninstallEach_fails (ms : List MethodId) (holds : P w) {e : PatchError}
    (failed : (w.uninstallEach host ms).1.2 = some e) : F e := by
  induction ms generalizing w with
  | nil => cases failed
  | cons m ms ih =>
    have rest := ih (uninstalled w m holds)
    match result : (w.uninstall host m).1 with
    | .ok true | .ok false =>
      simp only [uninstallEach, result] at failed
      exact rest failed
    | .error f =>
      simp only [uninstallEach, result, Option.some.injEq] at failed
      exact failed ▸ uninstallFails holds result

include installed installFails logged

theorem installEach_fails (done : List InstallOutcome) (ms : List MethodId) (holds : P w)
    {e : PatchError} (failed : (w.installEach host done ms).1 = .error e) : F e := by
  induction ms generalizing w done with
  | nil => cases failed
  | cons m ms ih =>
    have after := installed w m holds
    match result : w.install host m with
    | (.ok outcome, u) =>
      rw [result] at after
      simp only [installEach, result] at failed
      exact ih _ after failed
    | (.error f, u) =>
      rw [result] at after
      simp only [installEach, result, Except.error.injEq] at failed
      have fails := installFails holds (congrArg Prod.fst result)
      exact failed ▸ rollBack_fails uninstalled uninstallFails fails _ (logged _ _ _ after)

end Failures

/-! ### Answers of the host in memory -/

variable {w : World Memory} {m : MethodId} {e : PatchError}

theorem activatePatched_not_dangling {name : String} {points : List Point}
    (failed : (w.activatePatched .memory m name points).1 = .error e) : ¬e.Dangling := by
  rw [activatePatched_result] at failed
  cases loaded : w.host.loadBody m with
  | error refusal =>
    rw [loaded] at failed
    cases failed
    rintro ⟨⟩
    exact Memory.loadBody_answer loaded
  | ok body =>
    match assembled : Assembly.assemble name points body with
    | (reports, .error refusal) =>
      simp only [loaded, assembled] at failed
      cases failed
      exact Assembly.assemble_failure assembled
    | (reports, .ok patched) =>
      have sound := (Assembly.assemble_dangling assembled).2
      simp only [loaded, assembled] at failed
      cases answered : (w.host.activate m patched).1 with
      | ok => simp [answered, Except.mapError, Except.map] at failed
      | error refusal =>
        obtain rfl : PatchError.host refusal = e := by
          simpa [answered, Except.mapError, Except.map] using failed
        rintro ⟨⟩
        exact Memory.activate_answer sound answered

theorem install_not_dangling (failed : (w.install .memory m).1 = .error e) : ¬e.Dangling := by
  intro dangling
  unfold install World.slot at failed
  cases found : w.registry.find? m with
  | none =>
    simp only [found, Except.error.injEq] at failed
    cases failed
    cases dangling
  | some slot =>
    cases state : slot.state with
    | installed handle => simp [found, state] at failed
    | installing | uninstalling handle =>
      simp only [found, state, Except.error.injEq] at failed
      cases failed
      cases dangling
    | unpatched =>
      match tried : (w.withRegistry (w.registry.startInstall m)).activatePatched .memory m slot.name
          slot.points with
      | (.ok handle, u) => simp [found, state, tried] at failed
      | (.error f, u) =>
        simp only [found, state, tried, Except.error.injEq] at failed
        exact activatePatched_not_dangling (failed ▸ congrArg Prod.fst tried) dangling

theorem uninstall_not_dangling (assembled : w.registry.Assembled)
    (failed : (w.uninstall .memory m).1 = .error e) : ¬e.Dangling := by
  intro dangling
  cases found : w.registry.find? m with
  | none =>
    simp only [uninstall, World.slot, found, Except.error.injEq] at failed
    cases failed
    cases dangling
  | some slot =>
    cases state : slot.state with
    | unpatched => simp [uninstall, World.slot, found, state] at failed
    | installing | uninstalling handle =>
      simp only [uninstall, World.slot, found, state, Except.error.injEq] at failed
      cases failed
      cases dangling
    | installed handle =>
      have sound := (Assembly.assemble_dangling (assembled m slot handle found state)).1
      rw [uninstall_result found state] at failed
      split at failed
      · cases failed
      · next refusal answered =>
        cases failed
        cases dangling
        exact Memory.activate_answer sound answered

/-- The worlds whose registry came about from an empty one. -/
def Registered (strict : Bool) (w : World Memory) : Prop :=
  ∃ es, Registry.Evolves (.empty strict) es w.registry

namespace Registered

variable {strict : Bool}

theorem assembled (registered : w.Registered strict) : w.registry.Assembled := by
  obtain ⟨es, evolves⟩ := registered
  exact evolves.assembled (Registry.assembled_empty strict)

theorem empty (host : Memory) : (⟨host, .empty strict, []⟩ : World Memory).Registered strict :=
  ⟨[], .rest _⟩

theorem register (registered : w.Registered strict) (patch : MethodPatch) :
    (w.register .memory patch).2.Registered strict := by
  obtain ⟨es, evolves⟩ := registered
  exact ⟨_, evolves.trans (w.register_evolves patch)⟩

theorem installed (registered : w.Registered strict) (m : MethodId) :
    (w.install .memory m).2.Registered strict := by
  obtain ⟨es, evolves⟩ := registered
  obtain ⟨new, more⟩ := w.install_evolves Memory.atomic.keepsRegistry.operates m
  exact ⟨es ++ new, evolves.trans more⟩

theorem uninstalled (registered : w.Registered strict) (m : MethodId) :
    (w.uninstall .memory m).2.Registered strict := by
  obtain ⟨es, evolves⟩ := registered
  obtain ⟨new, more⟩ := w.uninstall_evolves Memory.atomic.keepsRegistry.operates m
  exact ⟨es ++ new, evolves.trans more⟩

end Registered

/-- A body loads exactly if the host finds no dangling labels in it, and what a stream is written
back as has none after any edits. So, whatever was registered, installed and uninstalled before,
with what calls of the host nested inside, the saved and the patched body of an installed method
have none, and no call fails because the host found some. -/
theorem loader_and_host_agree :
    (∀ b, (∃ s, Stream.ofBody b = .ok s) ↔ b.danglingLabels = []) ∧
    (∀ s : Stream, s.Reachable → s.toBody.danglingLabels = []) ∧
    ∀ strict (w : World Memory), w.Registered strict →
      (∀ m handle, w.registry.state? m = some (.installed handle) →
        handle.saved.danglingLabels = [] ∧ handle.patched.danglingLabels = []) ∧
      (∀ m e, (w.install .memory m).1 = .error e → ¬e.Dangling) ∧
      (∀ m e, (w.uninstall .memory m).1 = .error e → ¬e.Dangling) ∧
      (∀ e, (w.installAll .memory).1 = .error e → ¬e.Dangling) ∧
      ∀ e, (w.uninstallAll .memory).1 = .error e → ¬e.Dangling := by
  refine ⟨fun b => Body.dangling_nil_iff.symm, fun s reached => reached.wellFormed.dangling,
    fun strict w registered => ⟨fun m handle installed => ?_, fun m e => install_not_dangling,
      fun m e => uninstall_not_dangling registered.assembled, fun e failed => ?_,
      fun e failed => ?_⟩⟩
  · obtain ⟨slot, found, state⟩ := Option.map_eq_some_iff.mp installed
    exact Assembly.assemble_dangling (registered.assembled m slot handle found state)
  · exact installEach_fails (P := (·.Registered strict)) (fun _ m now => now.uninstalled m)
      (fun now failed => uninstall_not_dangling now.assembled failed)
      (fun _ m now => now.installed m) (fun _ failed => install_not_dangling failed)
      (fun _ _ _ now => now) [] _ registered failed
  · have fails : ∀ {e}, (w.uninstallEach .memory w.registry.methods.reverse).1.2 = some e →
        ¬e.Dangling := uninstallEach_fails (P := (·.Registered strict))
      (fun _ m now => now.uninstalled m)
      (fun now failed => uninstall_not_dangling now.assembled failed) _ registered
    match result : w.uninstallEach .memory w.registry.methods.reverse with
    | ((_, some f), u) =>
      simp only [uninstallAll, result, Except.error.injEq] at failed
      exact failed ▸ fails (by rw [result])
    | ((_, none), u) => simp [uninstallAll, result] at failed

/-- A host with a method that branches to nowhere and one that is guarded. -/
def strayHost : Memory :=
  ⟨[⟨"stray", ⟨[.br ⟨0⟩], .empty, false⟩, ⟨[.br ⟨0⟩], .empty, false⟩, 0, false⟩,
    ⟨"guarded", guardedBody, guardedBody, 0, false⟩]⟩

/-- The guarded method goes in, and the other one has a patch that cannot. -/
def strayWorld : World Memory :=
  ((((⟨strayHost, .empty true, []⟩ : World Memory).register .memory
    (guardPatch "stray")).2.register .memory (guardPatch "guarded")).2.install .memory ⟨2⟩).2

theorem stray_stopped_by_loader : ∃ handle,
    strayWorld.registry.state? ⟨2⟩ = some (.installed handle) ∧ handle.saved = guardedBody ∧
    handle.saved.danglingLabels = [] ∧ handle.patched.danglingLabels = [] ∧
    (strayWorld.installAll .memory).1 = .error (.stream "stray" (.unboundLabel ⟨0⟩)) ∧
    ¬(PatchError.stream "stray" (.unboundLabel ⟨0⟩)).Dangling := by
  have registered : strayWorld.Registered true :=
    (((Registered.empty strayHost).register _).register _).installed _
  obtain ⟨handle, installed, saved⟩ : ∃ handle,
      strayWorld.registry.state? ⟨2⟩ = some (.installed handle) ∧ handle.saved = guardedBody :=
    ⟨_, rfl, rfl⟩
  obtain ⟨bodies, -, -, all, -⟩ := loader_and_host_agree.2.2 true strayWorld registered
  have failed : (strayWorld.installAll .memory).1 =
      .error (.stream "stray" (.unboundLabel ⟨0⟩)) := rfl
  exact ⟨handle, installed, saved, (bodies _ _ installed).1, (bodies _ _ installed).2, failed,
    all _ failed⟩

end World

end Interpose
