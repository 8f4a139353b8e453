import Interpose.Proofs.Registry.Bulk
import Mathlib.Logic.Function.Basic

/-!
Uninstalling all methods over an atomic host. A refusal ends nothing: every method is asked for, and
each is taken back or refused as if it were the only one.
-/

set_option autoImplicit false
set_option relaxedAutoImplicit false

namespace Interpose

variable {σ ε : Type} {host : Host σ} {entry : σ → MethodId → ε} {running : ε → Option Body}

namespace World

variable {base w u v : World σ} {m k : MethodId} {ms : List MethodId}

def Settled (w : World σ) (k : MethodId) : Prop :=
  w.registry.state? k = some .unpatched ∨
    ∃ handle, w.registry.state? k = some (.installed handle)

def Grants (host : Host σ) (entry : σ → MethodId → ε) (w : World σ) (k : MethodId)
    (handle : Handle) : Prop :=
  ∃ x y, host.restore x k handle.saved = (.ok (), y) ∧ entry x.host k = entry w.host k

/-- How a settled method is left when it is uninstalled, by the result of that. -/
inductive TakenBack (host : Host σ) (entry : σ → MethodId → ε) (running : ε → Option Body)
    (w u : World σ) (k : MethodId) : Except PatchError Bool → Prop
  | idle : w.registry.state? k = some .unpatched → SameAt entry k w u →
      TakenBack host entry running w u k (.ok false)
  | restored {handle : Handle} : w.registry.state? k = some (.installed handle) →
      Grants host entry w k handle → u.registry.state? k = some .unpatched →
      running (entry u.host k) = some handle.saved → TakenBack host entry running w u k (.ok true)
  | refused {slot : Slot} {handle : Handle} {e : PatchError} : w.registry.find? k = some slot →
      slot.state = .installed handle → Refuses host entry w k handle slot.name e →
      SameAt entry k w u → TakenBack host entry running w u k (.error e)

theorem Grants.congr {handle : Handle} (grants : Grants host entry w k handle)
    (same : SameAt entry k base w) : Grants host entry base k handle := by
  obtain ⟨x, y, granted, there⟩ := grants
  exact ⟨x, y, granted, there.trans same.entry⟩

theorem Refuses.congr {handle : Handle} {name : String} {e : PatchError}
    (refuses : Refuses host entry w k handle name e) (same : SameAt entry k base w) :
    Refuses host entry base k handle name e := by
  obtain ⟨x, y, refusal, refused, there, failure⟩ := refuses
  exact ⟨x, y, refusal, refused, there.trans same.entry, failure⟩

theorem TakenBack.congr {result : Except PatchError Bool}
    (back : TakenBack host entry running w u k result) (first : SameAt entry k base w)
    (last : SameAt entry k u v) : TakenBack host entry running base v k result := by
  cases back with
  | idle unpatched same =>
    exact .idle (first.state ▸ unpatched) ((first.trans same).trans last)
  | restored installed grants unpatched runs =>
    exact .restored (first.state ▸ installed) (grants.congr first) (last.state ▸ unpatched)
      (last.entry ▸ runs)
  | refused found installed refuses same =>
    exact .refused (first.slot ▸ found) installed (refuses.congr first)
      ((first.trans same).trans last)

theorem uninstall_result {slot : Slot} {handle : Handle} (found : w.registry.find? m = some slot)
    (installed : slot.state = .installed handle) : (w.uninstall host m).1 =
      match (host.restore (w.setState m (.uninstalling handle)) m handle.saved).1 with
      | .ok () => .ok true
      | .error e => .error (.restoreFailed slot.name e) := by
  match answered : host.restore (w.setState m (.uninstalling handle)) m handle.saved with
  | (.ok (), after) | (.error e, after) =>
    simp only [uninstall, World.slot, found, installed, answered]

theorem uninstall_takenBack (atomic : host.Atomic entry running) (settled : w.Settled m) :
    (∀ k, k ≠ m → SameAt entry k w (w.uninstall host m).2) ∧
      TakenBack host entry running w (w.uninstall host m).2 m (w.uninstall host m).1 := by
  rcases settled with unpatched | ⟨handle, installed⟩
  · obtain ⟨slot, found, state⟩ := Option.map_eq_some_iff.mp unpatched
    have done : w.uninstall host m = (.ok false, w) := by
      simp only [uninstall, World.slot, found, state]
    rw [done]
    exact ⟨fun _ _ => .refl, .idle unpatched .refl⟩
  rcases w.uninstall_steps atomic m with ⟨result, -, impossible⟩ |
    ⟨result, after, slot, known, done, found, state, elsewhere, outcome⟩
  · exact absurd installed (impossible handle)
  have result_eq : (w.uninstall host m).1 = _ := uninstall_result found state
  rw [done] at result_eq ⊢
  refine ⟨fun k other => elsewhere.at other, ?_⟩
  rcases outcome with ⟨e, rfl, unmoved, there, x, y, refused, asked⟩ | ⟨rfl, restored, there⟩
  · have same : after.registry.find? m = w.registry.find? m := by
      rw [there, found, ← state]
    exact .refused found state ⟨x, y, e, refused, asked, rfl⟩ ⟨same, unmoved⟩
  · have before : w.registry.state? m = some (.installed known) := by
      simp [Registry.state?, found, state]
    refine .restored before ?_ (by simp [Registry.state?, there]) restored
    rcases answered : host.restore (w.setState m (.uninstalling known)) m known.saved with
      ⟨e | done, after⟩
    · rw [answered] at result_eq
      cases result_eq
    · exact ⟨_, after, answered, rfl⟩

def tookBack : Except PatchError Bool → Bool
  | .ok restored => restored
  | .error _ => false

def failure? : Except PatchError Bool → Option PatchError
  | .ok _ => none
  | .error e => some e

def uninstallResults (host : Host σ) (w : World σ) : List MethodId → List (Except PatchError Bool)
  | [] => []
  | m :: ms => (w.uninstall host m).1 :: uninstallResults host (w.uninstall host m).2 ms

theorem uninstallEach_results (host : Host σ) (w : World σ) (ms : List MethodId) :
    (w.uninstallEach host ms).1 = ((w.uninstallResults host ms).countP tookBack,
      (w.uninstallResults host ms).findSome? failure?) := by
  induction ms generalizing w with
  | nil => rfl
  | cons m ms ih =>
    have rest := ih (w.uninstall host m).2
    rw [uninstallEach, uninstallResults, List.countP_cons, List.findSome?_cons]
    dsimp only
    rcases (w.uninstall host m).1 with e | _ | _
    · simp [tookBack, failure?, rest]
    · simp [tookBack, failure?, rest]
    · simp [tookBack, failure?, rest]

/-- Methods are uninstalled one after the other, each as if it were the only one. -/
theorem uninstallEach_takenBack (atomic : host.Atomic entry running) (distinct : ms.Nodup)
    (settled : ∀ k ∈ ms, base.Settled k) (start : ∀ k ∈ ms, SameAt entry k base w) :
    ∃ answer : MethodId → Except PatchError Bool,
      w.uninstallResults host ms = ms.map answer ∧
      (∀ k, k ∉ ms → SameAt entry k w (w.uninstallEach host ms).2) ∧
      ∀ k ∈ ms, TakenBack host entry running base (w.uninstallEach host ms).2 k (answer k) := by
  induction ms generalizing w with
  | nil => exact ⟨fun _ => .ok false, rfl, fun _ _ => .refl, by simp⟩
  | cons m ms ih =>
    obtain ⟨new, distinct⟩ := List.nodup_cons.mp distinct
    have here := start m List.mem_cons_self
    obtain ⟨others, back⟩ := uninstall_takenBack (w := w) atomic (m := m) (by
      rw [Settled, here.state]
      exact settled m List.mem_cons_self)
    have apart : ∀ k ∈ ms, k ≠ m := fun k member same => new (same ▸ member)
    obtain ⟨answer, results, elsewhere, each⟩ := ih (w := (w.uninstall host m).2) distinct
      (fun k member => settled k (List.mem_cons_of_mem _ member)) fun k member =>
        (start k (List.mem_cons_of_mem _ member)).trans (others k (apart k member))
    have last : (w.uninstallEach host (m :: ms)).2 =
        ((w.uninstall host m).2.uninstallEach host ms).2 := by
      rw [uninstallEach]
      dsimp only
      split <;> rfl
    -- The answers of the others stand, since no method is asked for twice.
    have rest : ms.map (Function.update answer m (w.uninstall host m).1) = ms.map answer :=
      List.map_congr_left fun k member => Function.update_of_ne (apart k member) _ _
    refine ⟨Function.update answer m (w.uninstall host m).1, ?_, fun k outside => ?_,
      fun k member => ?_⟩
    · rw [uninstallResults, results, List.map_cons, rest, Function.update_self]
    · rw [List.mem_cons, not_or] at outside
      exact last ▸ (others k outside.1).trans (elsewhere k outside.2)
    · rw [last]
      rcases List.mem_cons.mp member with rfl | later
      · rw [Function.update_self]
        exact back.congr here (elsewhere k new)
      · rw [Function.update_of_ne (apart k later)]
        exact each k later

theorem uninstallAll_takenBack (atomic : host.Atomic entry running)
    (distinct : w.registry.methods.Nodup) (settled : ∀ k ∈ w.registry.methods, w.Settled k) :
    ∃ (answer : MethodId → Except PatchError Bool) (u : World σ),
      w.uninstallResults host w.registry.methods.reverse =
        w.registry.methods.reverse.map answer ∧
      w.uninstallAll host = (match w.registry.methods.reverse.findSome? (failure? ∘ answer) with
        | some e => .error e
        | none => .ok (w.registry.methods.countP (tookBack ∘ answer)), u) ∧
      (∀ k, k ∉ w.registry.methods → SameAt entry k w u) ∧
      ∀ k ∈ w.registry.methods, TakenBack host entry running w u k (answer k) := by
  obtain ⟨answer, results, elsewhere, each⟩ := uninstallEach_takenBack (w := w) atomic
    (List.nodup_reverse.mpr distinct) (fun k member => settled k (List.mem_reverse.mp member))
    fun _ _ => .refl
  refine ⟨answer, (w.uninstallEach host w.registry.methods.reverse).2, results, ?_,
    fun k outside => elsewhere k (by simpa using outside),
    fun k member => each k (List.mem_reverse.mpr member)⟩
  have summed := w.uninstallEach_results host w.registry.methods.reverse
  rw [results, List.findSome?_map, List.countP_map, List.countP_reverse] at summed
  rw [uninstallAll, ← Prod.eta (w.uninstallEach host w.registry.methods.reverse), summed]
  cases w.registry.methods.reverse.findSome? (failure? ∘ answer) <;> rfl

end World

end Interpose
