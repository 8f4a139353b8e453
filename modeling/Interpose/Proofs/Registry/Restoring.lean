import Interpose.Proofs.Registry.RollBack
import Interpose.Proofs.Registry.UninstallAll
import Mathlib.Data.List.Induction

/-!
What uninstalling all methods restores, over any atomic host. The host is asked for every installed
method once, the one registered last first, whatever it answered before. A method that it grants is
unpatched and runs its saved body, one that it refuses stays as it was. The first refusal is
reported, which is that of the method registered last.
-/

set_option autoImplicit false
set_option relaxedAutoImplicit false

namespace Interpose

variable {σ ε : Type} {host : Host σ} {entry : σ → MethodId → ε} {running : ε → Option Body}

namespace World

variable {kept : MethodId → Prop} {strict : Bool} {start : σ} {w u after : World σ}
  {m k : MethodId}

/-! ### Runs over any host -/

/-- The worlds that calls of a new registry lead to. In between the host may change in any way that
leaves the bodies of the methods in `kept` alone. -/
inductive Undisturbed (host : Host σ) (entry : σ → MethodId → ε) (running : ε → Option Body)
    (kept : MethodId → Prop) (strict : Bool) (start : σ) : World σ → Prop
  | new : Undisturbed host entry running kept strict start ⟨start, .empty strict, []⟩
  | call {w : World σ} (c : Call) : Undisturbed host entry running kept strict start w →
      Undisturbed host entry running kept strict start (c.performOn host w)
  | other {w : World σ} (state : σ) : Undisturbed host entry running kept strict start w →
      (∀ m, kept m → running (entry state m) = running (entry w.host m)) →
      Undisturbed host entry running kept strict start { w with host := state }

/-- The method is unpatched, or installed with a handle. If nobody else changes its body, it runs
the one from the start in the first case and the patched one in the second, and the handle then
remembers the one from the start. -/
def Owned (entry : σ → MethodId → ε) (running : ε → Option Body) (kept : MethodId → Prop)
    (start : σ) (w : World σ) (m : MethodId) : Prop :=
  match w.registry.state? m with
  | none | some .unpatched => kept m → running (entry w.host m) = running (entry start m)
  | some (.installed handle) => kept m → running (entry start m) = some handle.saved ∧
      running (entry w.host m) = some handle.patched
  | some .installing | some (.uninstalling _) => False

theorem Owned.same (owned : Owned entry running kept start w m)
    (registry : after.registry.state? m = w.registry.state? m)
    (host : kept m → running (entry after.host m) = running (entry w.host m)) :
    Owned entry running kept start after m := by
  unfold Owned at *
  rw [registry]
  split at owned
  · exact fun trusted => (host trusted).trans (owned trusted)
  · exact fun trusted => (host trusted).trans (owned trusted)
  · exact fun trusted => ⟨(owned trusted).1, (host trusted).trans (owned trusted).2⟩
  · exact owned
  · exact owned

theorem Owned.at (owned : Owned entry running kept start w m) (same : SameAt entry m w after) :
    Owned entry running kept start after m :=
  owned.same same.state fun _ => congrArg running same.entry

theorem Owned.of_unpatched (owned : Owned entry running kept start w m)
    (unpatched : w.registry.state? m = some .unpatched) (trusted : kept m) :
    running (entry w.host m) = running (entry start m) := by
  simp only [Owned, unpatched] at owned
  exact owned trusted

theorem Owned.of_installed {handle : Handle} (owned : Owned entry running kept start w m)
    (installed : w.registry.state? m = some (.installed handle)) (trusted : kept m) :
    running (entry start m) = some handle.saved ∧
      running (entry w.host m) = some handle.patched := by
  simp only [Owned, installed] at owned
  exact owned trusted

theorem Owned.settled (owned : Owned entry running kept start w m)
    (member : m ∈ w.registry.methods) : w.Settled m := by
  obtain ⟨slot, found⟩ := find_of_mem member
  have state : w.registry.state? m = some slot.state := by rw [Registry.state?, found]; rfl
  simp only [Owned, state] at owned
  unfold Settled
  rw [state]
  split at owned
  · next impossible => cases impossible
  · next unpatched => exact .inl unpatched
  · next handle installed => exact .inr ⟨handle, installed⟩
  · exact owned.elim
  · exact owned.elim

theorem Owned.install (atomic : host.Atomic entry running)
    (owned : Owned entry running kept start w k) (m : MethodId) :
    Owned entry running kept start (w.install host m).2 k := by
  match tried : w.install host m with
  | (.error e, after) =>
    obtain ⟨others, here⟩ := install_failed atomic tried
    by_cases same : k = m
    · subst same
      obtain ⟨state, runs⟩ := Prod.mk.inj here
      exact owned.same state fun _ => runs
    · exact owned.at (others k same)
  | (.ok o, after) =>
    obtain ⟨others, state, ⟨-, still⟩ | ⟨-, newly⟩⟩ := install_settles atomic tried
    · by_cases same : k = m
      · exact owned.at (same ▸ still)
      · exact owned.at (others.at same)
    · by_cases same : k = m
      · subst same
        simp only [Owned, state]
        exact fun trusted => ⟨(owned.of_unpatched newly.before trusted).symm.trans
          newly.placed.saved, newly.placed.patched⟩
      · exact owned.at (others.at same)

theorem Owned.uninstall (atomic : host.Atomic entry running)
    (owned : Owned entry running kept start w k) (m : MethodId) :
    Owned entry running kept start (w.uninstall host m).2 k := by
  rcases w.uninstall_steps atomic m with ⟨result, same, -⟩ |
    ⟨result, after, slot, handle, done, found, installed, elsewhere, outcome⟩
  · rwa [same]
  rw [done]
  by_cases same : k = m
  case neg => exact owned.at (elsewhere.at same)
  subst same
  have state : w.registry.state? k = some (.installed handle) := by
    rw [Registry.state?, found, Option.map_some, installed]
  rcases outcome with ⟨e, -, unmoved, there, -⟩ | ⟨-, runs, there⟩
  · refine owned.same ?_ fun _ => congrArg running unmoved
    rw [state, Registry.state?, there]
    rfl
  · have unpatched : after.registry.state? k = some .unpatched := by
      rw [Registry.state?, there]
      rfl
    simp only [Owned, unpatched]
    exact fun trusted => runs.trans (owned.of_installed state trusted).1.symm

theorem Owned.register (owned : Owned entry running kept start w k) (patch : MethodPatch) :
    Owned entry running kept start (w.register host patch).2 k := by
  unfold World.register
  split
  · exact owned
  next m resolved =>
  split
  · exact owned
  next registry added =>
  rcases Registry.find_add added k with same | ⟨rfl, slot, there, unpatched, before⟩
  · exact owned.same (congrArg (Option.map Slot.state) same) fun _ => rfl
  · have state : registry.state? k = some .unpatched := by
      rw [Registry.state?, there, Option.map_some, unpatched]
    have free : kept k → running (entry w.host k) = running (entry start k) := by
      cases found : w.registry.find? k with
      | none => simpa [Owned, Registry.state?, found] using owned
      | some old => exact owned.of_unpatched (by simp [Registry.state?, found, before old found])
    simp only [Owned, withRegistry, state]
    exact free

theorem Undisturbed.owned (atomic : host.Atomic entry running)
    (run : Undisturbed host entry running kept strict start w) (m : MethodId) :
    Owned entry running kept start w m := by
  induction run with
  | new => exact fun _ => rfl
  | call c _ ih =>
    exact c.performOn_preserves (P := fun w => Owned entry running kept start w m)
      (fun _ patch owned => owned.register patch) (fun _ k owned => owned.install atomic k)
      (fun _ k owned => owned.uninstall atomic k)
      (fun _ _ _ owned => owned.same rfl fun _ => rfl) ih
  | other state _ same ih => exact ih.same rfl (same m)

theorem Undisturbed.distinct (atomic : host.Atomic entry running)
    (run : Undisturbed host entry running kept strict start w) : w.registry.methods.Nodup := by
  induction run with
  | new => exact List.nodup_nil
  | call c _ ih => exact c.performOn_distinct atomic ih
  | other state _ _ ih => exact ih

/-! ### What is asked -/

theorem uninstallEach_recording (host : Host σ) (w : World σ) (requests : List Request)
    (ms : List MethodId) : (w.recording requests).uninstallEach host.recorded ms =
      ((w.uninstallEach host ms).1, (w.uninstallEach host ms).2.recording (requests ++
        (ms.zip (w.uninstallResults host ms)).flatMap fun (m, r) => Request.forResult m r)) := by
  induction ms generalizing w requests with
  | nil => simp [uninstallEach, uninstallResults]
  | cons m ms ih =>
    have first := uninstall_recording host w requests m
    have rest := ih (w.uninstall host m).2 (requests ++ Request.forResult m (w.uninstall host m).1)
    simp only [uninstallEach, uninstallResults, first, rest, List.zip_cons_cons,
      List.flatMap_cons, List.append_assoc]
    rcases (w.uninstall host m).1 with e | _ | _
    · rfl
    · rfl
    · rfl

theorem uninstallAll_recording (host : Host σ) (w : World σ) (requests : List Request) :
    (w.recording requests).uninstallAll host.recorded =
      ((w.uninstallAll host).1, (w.uninstallAll host).2.recording (requests ++
        (w.registry.methods.reverse.zip
          (w.uninstallResults host w.registry.methods.reverse)).flatMap fun (m, r) =>
            Request.forResult m r)) := by
  have each := uninstallEach_recording host w requests w.registry.methods.reverse
  simp only [uninstallAll, registry_recording, each]
  rcases w.uninstallEach host w.registry.methods.reverse with ⟨⟨restored, _ | e⟩, u⟩
  · rfl
  · rfl

theorem requests_of_results {answer : MethodId → Except PatchError Bool}
    {p granted : MethodId → Bool} {ms : List MethodId} (each : ∀ k ∈ ms,
      Request.forResult k (answer k) = if p k then [.restore k (granted k)] else []) :
    ((ms.zip (ms.map answer)).flatMap fun (k, r) => Request.forResult k r) =
      (ms.filter p).map fun k => .restore k (granted k) := by
  induction ms with
  | nil => rfl
  | cons m ms ih =>
    have first := each m List.mem_cons_self
    have rest := ih fun k member => each k (List.mem_cons_of_mem m member)
    simp only [List.map_cons, List.zip_cons_cons, List.flatMap_cons, first, rest]
    cases asked : p m <;> simp [asked]

/-! ### All methods -/

def refusal? : Except PatchError Bool → Option HostError
  | .error (.restoreFailed _ e) => some e
  | _ => none

theorem TakenBack.of_installed {result : Except PatchError Bool} {handle : Handle}
    (back : TakenBack host entry running w u k result)
    (installed : w.registry.state? k = some (.installed handle)) :
    (result = .ok true ∧ u.registry.state? k = some .unpatched ∧
        running (entry u.host k) = some handle.saved) ∨
      ∃ slot e x y, result = .error (.restoreFailed slot.name e) ∧
        w.registry.find? k = some slot ∧ host.restore x k handle.saved = (.error e, y) ∧
        entry x.host k = entry w.host k ∧ SameAt entry k w u := by
  cases back with
  | idle unpatched _ => cases unpatched.symm.trans installed
  | restored there _ unpatched runs =>
    obtain rfl := PatchState.installed.inj (Option.some.inj (there.symm.trans installed))
    exact .inl ⟨rfl, unpatched, runs⟩
  | @refused slot _ _ found state refuses same =>
    obtain ⟨x, y, e, refused, there, rfl⟩ := refuses
    have known : w.registry.state? k = some slot.state := by rw [Registry.state?, found]; rfl
    rw [state] at known
    obtain rfl := PatchState.installed.inj (Option.some.inj (known.symm.trans installed))
    exact .inr ⟨slot, e, x, y, rfl, found, refused, there, same⟩

theorem TakenBack.granted {result : Except PatchError Bool} {handle : Handle}
    (back : TakenBack host entry running w u k result)
    (installed : w.registry.state? k = some (.installed handle))
    (granted : refusal? result = none) :
    u.registry.state? k = some .unpatched ∧ running (entry u.host k) = some handle.saved := by
  rcases back.of_installed installed with ⟨-, unpatched, runs⟩ | ⟨slot, e, -, -, rfl, -⟩
  · exact ⟨unpatched, runs⟩
  · cases granted

theorem TakenBack.declined {result : Except PatchError Bool} {handle : Handle} {e : HostError}
    (back : TakenBack host entry running w u k result)
    (installed : w.registry.state? k = some (.installed handle))
    (refused : refusal? result = some e) :
    (∃ x y, host.restore x k handle.saved = (.error e, y) ∧ entry x.host k = entry w.host k) ∧
      SameAt entry k w u := by
  rcases back.of_installed installed with ⟨rfl, -⟩ | ⟨slot, _, x, y, rfl, -, asked, there, same⟩
  · cases refused
  · cases refused
    exact ⟨⟨x, y, asked, there⟩, same⟩

theorem TakenBack.of_idle {result : Except PatchError Bool}
    (back : TakenBack host entry running w u k result)
    (idle : ∀ handle, w.registry.state? k ≠ some (.installed handle)) :
    result = .ok false ∧ SameAt entry k w u := by
  cases back with
  | idle _ same => exact ⟨rfl, same⟩
  | restored installed _ _ _ => exact absurd installed (idle _)
  | @refused slot handle _ found state _ _ =>
    have installed : w.registry.state? k = some (.installed handle) := by
      rw [Registry.state?, found, Option.map_some, state]
    exact absurd installed (idle handle)

/-- The results that a method can have, by what is known of it. -/
inductive Answered (r : Registry) (k : MethodId) : Except PatchError Bool → Prop
  | idle : k ∉ r.installed → Answered r k (.ok false)
  | granted : k ∈ r.installed → Answered r k (.ok true)
  | refused {slot : Slot} {e : HostError} : k ∈ r.installed → r.find? k = some slot →
      Answered r k (.error (.restoreFailed slot.name e))

theorem TakenBack.answered {result : Except PatchError Bool} (distinct : w.registry.methods.Nodup)
    (back : TakenBack host entry running w u k result) : Answered w.registry k result := by
  by_cases installed : k ∈ w.registry.installed
  · obtain ⟨handle, state⟩ := (Registry.mem_installed_iff distinct).mp installed
    rcases back.of_installed state with ⟨rfl, -⟩ | ⟨slot, e, -, -, rfl, found, -⟩
    · exact .granted installed
    · exact .refused installed found
  · rw [(back.of_idle fun handle state => installed
      ((Registry.mem_installed_iff distinct).mpr ⟨handle, state⟩)).1]
    exact .idle installed

namespace Answered

variable {r : Registry} {result : Except PatchError Bool}

theorem request (answered : Answered r k result) : Request.forResult k result =
    if decide (k ∈ r.installed) then [.restore k (refusal? result).isNone] else [] := by
  cases answered with
  | idle idle => simp [idle, Request.forResult]
  | granted installed => simp [installed, Request.forResult, refusal?]
  | refused installed _ => simp [installed, Request.forResult, refusal?]

theorem fails_iff (answered : Answered r k result) : (failure? result).isSome =
    ((refusal? result).isSome && decide (k ∈ r.installed)) := by
  cases answered with
  | idle _ | granted _ => simp [failure?, refusal?]
  | refused installed _ => simp [installed, failure?, refusal?]

theorem tookBack (answered : Answered r k result)
    (granted : k ∈ r.installed → refusal? result = none) :
    tookBack result = decide (k ∈ r.installed) := by
  cases answered with
  | idle idle => simp [idle, tookBack]
  | granted installed => simp [installed, tookBack]
  | refused installed _ => simp [refusal?] at granted; contradiction

theorem failure (answered : Answered r k result) (refused : (refusal? result).isSome) :
    ∃ slot e, r.find? k = some slot ∧ refusal? result = some e ∧
      failure? result = some (.restoreFailed slot.name e) := by
  cases answered with
  | idle _ | granted _ => simp [refusal?] at refused
  | @refused slot e _ found => exact ⟨slot, e, found, rfl, rfl⟩

end Answered

theorem find_some_reverse {α β : Type} (f : α → Option β) (l : List α) :
    l.reverse.findSome? f = (l.filter fun a => (f a).isSome).getLast?.bind f := by
  induction l using List.reverseRecOn with
  | nil => rfl
  | append_singleton l a ih =>
    rw [List.reverse_concat, List.findSome?_cons, List.filter_append]
    cases found : f a with
    | none => simp [found, ih]
    | some b => simp [found]

/-- The result by the refusals: the number of installed methods if there is none, and else the
refusal for the last of them. -/
inductive Summed (r : Registry) (refusal : MethodId → Option HostError) :
    Except PatchError Nat → Prop
  | all : (∀ k ∈ r.installed, refusal k = none) → Summed r refusal (.ok r.installed.length)
  | last {k : MethodId} {slot : Slot} {reason : HostError} :
      (r.installed.filter fun k => (refusal k).isSome).getLast? = some k → r.find? k = some slot →
      refusal k = some reason → Summed r refusal (.error (.restoreFailed slot.name reason))

section Summed

variable {r : Registry} {refusal : MethodId → Option HostError} {result : Except PatchError Nat}

theorem Summed.ok_iff (summed : Summed r refusal result) {n : Nat} : result = .ok n ↔
    (∀ k ∈ r.installed, refusal k = none) ∧ n = r.installed.length := by
  cases summed with
  | all granted =>
    rw [Except.ok.injEq]
    exact ⟨fun count => ⟨granted, count.symm⟩, fun count => count.2.symm⟩
  | @last k _ _ final _ refused =>
    refine ⟨nofun, fun ⟨granted, _⟩ => ?_⟩
    have installed := (List.mem_filter.mp (List.mem_of_getLast? final)).1
    cases refused.symm.trans (granted k installed)

theorem Summed.error_iff (summed : Summed r refusal result) {e : PatchError} :
    result = .error e ↔ ∃ k slot reason,
      (r.installed.filter fun k => (refusal k).isSome).getLast? = some k ∧
      r.find? k = some slot ∧ refusal k = some reason ∧ e = .restoreFailed slot.name reason := by
  cases summed with
  | all granted =>
    refine ⟨nofun, fun ⟨k, _, _, final, _, refused, _⟩ => ?_⟩
    have installed := (List.mem_filter.mp (List.mem_of_getLast? final)).1
    cases refused.symm.trans (granted k installed)
  | last final found refused =>
    rw [Except.error.injEq]
    refine ⟨fun same => ⟨_, _, _, final, found, refused, same.symm⟩, ?_⟩
    rintro ⟨k, slot, reason, final', found', refused', rfl⟩
    obtain rfl := Option.some.inj (final.symm.trans final')
    obtain rfl := Option.some.inj (found.symm.trans found')
    obtain rfl := Option.some.inj (refused.symm.trans refused')
    rfl

theorem summed_answers {answer : MethodId → Except PatchError Bool} (distinct : r.methods.Nodup)
    (each : ∀ k ∈ r.methods, Answered r k (answer k)) : Summed r (refusal? ∘ answer)
      (match r.methods.reverse.findSome? (failure? ∘ answer) with
        | some e => .error e
        | none => .ok (r.methods.countP (tookBack ∘ answer))) := by
  have failed : r.methods.filter (fun k => ((failure? ∘ answer) k).isSome) =
      r.installed.filter fun k => (refusal? (answer k)).isSome := by
    rw [Registry.installed_eq_filter distinct, List.filter_filter]
    exact List.filter_congr fun k member => (each k member).fails_iff
  rw [find_some_reverse, failed]
  cases last : (r.installed.filter fun k => (refusal? (answer k)).isSome).getLast? with
  | none =>
    have granted : ∀ k ∈ r.installed, refusal? (answer k) = none := by
      simpa [List.filter_eq_nil_iff] using List.getLast?_eq_none_iff.mp last
    have counted : r.methods.countP (tookBack ∘ answer) = r.installed.length := by
      rw [Registry.length_installed distinct]
      refine List.countP_congr fun k member => ?_
      rw [Function.comp_apply, (each k member).tookBack (granted k)]
    rw [Option.bind_none, counted]
    exact .all granted
  | some k =>
    obtain ⟨installed, refused⟩ := List.mem_filter.mp (List.mem_of_getLast? last)
    obtain ⟨slot, e, found, reason, failure⟩ :=
      (each k (Registry.mem_of_installed installed)).failure refused
    have first : (some k).bind (failure? ∘ answer) = some _ := failure
    rw [first]
    exact .last last found reason

end Summed

/-- What uninstalling all methods does, by the refusals of the host. It is asked for every installed
method, the one registered last first. A method that it grants is unpatched and runs the saved body,
which is the one from the start; one that it refuses is still installed and runs the patched body.
The number of restored methods is given, or else the refusal for the one registered last. -/
structure RestoresAll (host : Host σ) (entry : σ → MethodId → ε) (running : ε → Option Body)
    (kept : MethodId → Prop) (start : σ) (w u : World σ) (refusal : MethodId → Option HostError)
    (result : Except PatchError Nat) : Prop where
  asked : (w.recording []).uninstallAll host.recorded = (result, u.recording
    (w.registry.installed.reverse.map fun k => .restore k (refusal k).isNone))
  granted : ∀ {k handle}, w.registry.state? k = some (.installed handle) → refusal k = none →
    u.registry.state? k = some .unpatched ∧ u.registry.handle? k = none ∧
    running (entry u.host k) = some handle.saved ∧
    (kept k → running (entry start k) = some handle.saved)
  refused : ∀ {k handle e}, w.registry.state? k = some (.installed handle) → refusal k = some e →
    u.registry.state? k = some (.installed handle) ∧ u.registry.handle? k = some handle ∧
    (∃ x y, host.restore x k handle.saved = (.error e, y) ∧ entry x.host k = entry w.host k) ∧
    entry u.host k = entry w.host k ∧ (kept k → running (entry u.host k) = some handle.patched)
  others : ∀ {k}, (∀ handle, w.registry.state? k ≠ some (.installed handle)) → SameAt entry k w u
  succeeds : ∀ n, result = .ok n ↔
    (∀ k ∈ w.registry.installed, refusal k = none) ∧ n = w.registry.installed.length
  fails : ∀ e, result = .error e ↔ ∃ k slot reason,
    (w.registry.installed.filter fun k => (refusal k).isSome).getLast? = some k ∧
    w.registry.find? k = some slot ∧ refusal k = some reason ∧ e = .restoreFailed slot.name reason

theorem uninstallAll_restores (atomic : host.Atomic entry running)
    (run : Undisturbed host entry running kept strict start w) :
    ∃ refusal u result, w.uninstallAll host = (result, u) ∧
      RestoresAll host entry running kept start w u refusal result := by
  have distinct := run.distinct atomic
  obtain ⟨answer, u, results, done, outside, each⟩ := uninstallAll_takenBack atomic distinct
    fun k member => (run.owned atomic k).settled member
  have answered := fun k member => (each k member).answered distinct
  have member : ∀ {k handle}, w.registry.state? k = some (.installed handle) →
      k ∈ w.registry.methods := fun installed =>
    Registry.mem_of_installed ((Registry.mem_installed_iff distinct).mpr ⟨_, installed⟩)
  have asked : ((w.registry.methods.reverse.zip (w.registry.methods.reverse.map answer)).flatMap
      fun (k, r) => Request.forResult k r) =
        w.registry.installed.reverse.map fun k => .restore k (refusal? (answer k)).isNone := by
    rw [Registry.installed_eq_filter distinct, ← List.filter_reverse]
    exact requests_of_results fun k member => (answered k (List.mem_reverse.mp member)).request
  have summed := summed_answers distinct answered
  refine ⟨refusal? ∘ answer, u, _, done, ?_, ?_, ?_, ?_, fun _ => summed.ok_iff,
    fun _ => summed.error_iff⟩
  · rw [uninstallAll_recording, results, asked, done]
    rfl
  · intro k handle installed granted
    obtain ⟨unpatched, runs⟩ := (each k (member installed)).granted installed granted
    have origin := (run.owned atomic k).of_installed installed
    refine ⟨unpatched, ?_, runs, fun trusted => (origin trusted).1⟩
    rw [Registry.handle?, unpatched]
    rfl
  · intro k handle e installed refused
    obtain ⟨asked, same⟩ := (each k (member installed)).declined installed refused
    have state := same.state.trans installed
    have patched := (run.owned atomic k).of_installed installed
    refine ⟨state, ?_, asked, same.entry, fun trusted => same.entry ▸ (patched trusted).2⟩
    rw [Registry.handle?, state]
    rfl
  · intro k idle
    by_cases known : k ∈ w.registry.methods
    · exact ((each k known).of_idle idle).2
    · exact outside k known

def twoMethods : Memory :=
  ⟨[⟨"first", guardedBody, guardedBody, 0, false⟩, ⟨"second", guardedBody, guardedBody, 0, false⟩]⟩

def bothPatched (host : Host Memory) : World Memory :=
  [.register (guardPatch "first"), .register (guardPatch "second"), .installAll].foldl
    (Call.performOn host) ⟨twoMethods, .empty true, []⟩

/-- The method that is asked for first is refused, and the other is restored all the same. -/
theorem refused_second_restores_first : ∃ u : World Memory,
    (Host.keeping ⟨2⟩).Atomic Memory.method? (Option.map MemoryMethod.active) ∧
    ((bothPatched (.keeping ⟨2⟩)).recording []).uninstallAll (Host.keeping ⟨2⟩).recorded =
      (.error (.restoreFailed "second" (.activationRejected "second" "in use")),
        u.recording [.restore ⟨2⟩ false, .restore ⟨1⟩ true]) ∧
    (u.registry.state? ⟨1⟩ = some .unpatched ∧ u.host.activeBody? ⟨1⟩ = some guardedBody) ∧
    ∃ handle, u.registry.handle? ⟨2⟩ = some handle ∧ handle.saved = guardedBody ∧
      u.host.activeBody? ⟨2⟩ = some handle.patched := by
  have atomic := Host.keeping_atomic ⟨2⟩
  have run : Undisturbed (.keeping ⟨2⟩) Memory.method? (Option.map MemoryMethod.active)
      (fun _ => True) true twoMethods (bothPatched (.keeping ⟨2⟩)) := by
    simp only [bothPatched, List.foldl_cons, List.foldl_nil]
    exact .call _ (.call _ (.call _ .new))
  obtain ⟨first, installed_first⟩ : ∃ handle,
      (bothPatched (.keeping ⟨2⟩)).registry.state? ⟨1⟩ = some (.installed handle) := ⟨_, rfl⟩
  obtain ⟨second, installed_second⟩ : ∃ handle,
      (bothPatched (.keeping ⟨2⟩)).registry.state? ⟨2⟩ = some (.installed handle) := ⟨_, rfl⟩
  obtain ⟨refusal, u, result, -, restores⟩ := uninstallAll_restores atomic run
  have told : result = .error (.restoreFailed "second" (.activationRejected "second" "in use")) :=
    (congrArg Prod.fst restores.asked).symm.trans rfl
  have requests : ((bothPatched (.keeping ⟨2⟩)).registry.installed.reverse.map fun k =>
      Request.restore k (refusal k).isNone) = [.restore ⟨2⟩ false, .restore ⟨1⟩ true] :=
    (congrArg (fun run => run.2.host.2) restores.asked).symm.trans rfl
  have asked := restores.asked
  rw [told, requests] at asked
  have both : (bothPatched (.keeping ⟨2⟩)).registry.installed = [⟨1⟩, ⟨2⟩] := rfl
  simp only [both, List.reverse_cons, List.reverse_nil, List.nil_append, List.cons_append,
    List.map_cons, List.map_nil, List.cons.injEq, Request.restore.injEq, true_and, and_true,
    Option.isNone_iff_eq_none] at requests
  obtain ⟨refused, granted⟩ := requests
  obtain ⟨e, refused⟩ := Option.isSome_iff_exists.mp (by simpa using refused)
  obtain ⟨unpatched, -, runs, origin⟩ := restores.granted installed_first granted
  obtain ⟨-, handle, -, -, patched⟩ := restores.refused installed_second refused
  have saved := ((run.owned atomic ⟨2⟩).of_installed installed_second trivial).1
  exact ⟨u, atomic, asked, ⟨unpatched, runs.trans (origin trivial).symm⟩, second, handle,
    (Option.some.inj saved).symm, patched trivial⟩

end World

end Interpose
