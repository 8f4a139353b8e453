import Interpose.Registry.Lifecycle

/-!
Hosts that do what they are asked for or refuse. Such a host may refuse any request; a request that
is refused changes nothing, and one that is granted changes nothing but the body of its method.
Over such a host an installation and its opposite are all or nothing, one method at a time.
-/

set_option autoImplicit false
set_option relaxedAutoImplicit false

namespace Interpose

/-! ### The registry -/

namespace Registry

theorem find_modify (r : Registry) (m k : MethodId) {f : Slot → Slot}
    (named : ∀ slot, (f slot).method = slot.method) :
    (r.modify m f).find? k = if k = m then (r.find? k).map f else r.find? k := by
  obtain ⟨strict, dispatcher, slots⟩ := r
  simp only [modify, find?]
  induction slots with
  | nil => simp
  | cons slot slots ih =>
    have same : (if slot.method = m then f slot else slot).method = slot.method := by
      split
      · exact named slot
      · rfl
    rw [List.map_cons, List.find?_cons, List.find?_cons, same, ih]
    by_cases here : slot.method = k
    · by_cases changed : k = m <;> simp [here, changed]
    · simp [here]

theorem methods_modify (r : Registry) (m : MethodId) {f : Slot → Slot}
    (named : ∀ slot, (f slot).method = slot.method) : (r.modify m f).methods = r.methods := by
  simp only [modify, methods, List.map_map]
  refine List.map_congr_left fun slot _ => ?_
  simp only [Function.comp_apply]
  split
  · exact named slot
  · rfl

theorem methods_setState (r : Registry) (m : MethodId) (state : PatchState) :
    (r.setState m state).methods = r.methods :=
  methods_modify r m fun _ => rfl

theorem find_setState (r : Registry) (m k : MethodId) (state : PatchState) :
    (r.setState m state).find? k =
      if k = m then (r.find? k).map fun slot => { slot with state } else r.find? k :=
  find_modify r m k fun _ => rfl

theorem find_startInstall (r : Registry) (m k : MethodId) :
    (r.startInstall m).find? k = if k = m then (r.find? k).map fun slot =>
      { slot with state := .installing, searches := slot.searches + 1 } else r.find? k :=
  find_modify r m k fun _ => rfl

theorem find_started {r : Registry} {m : MethodId} {slot : Slot} (found : r.find? m = some slot) :
    (r.startInstall m).find? m =
      some { slot with state := .installing, searches := slot.searches + 1 } := by
  rw [find_startInstall, if_pos rfl, found, Option.map_some]

theorem find_set {r : Registry} {m : MethodId} {slot : Slot} (found : r.find? m = some slot)
    (state : PatchState) : (r.setState m state).find? m = some { slot with state } := by
  rw [find_setState, if_pos rfl, found, Option.map_some]

theorem find_installed {r : Registry} {m : MethodId} {slot : Slot} (found : r.find? m = some slot)
    (state : PatchState) (k : MethodId) : ((r.startInstall m).setState m state).find? k =
      if k = m then some { slot with state, searches := slot.searches + 1 } else r.find? k := by
  rw [find_setState, find_startInstall]
  by_cases same : k = m <;> simp [same, found]

theorem methods_installed (r : Registry) (m : MethodId) (state : PatchState) :
    ((r.startInstall m).setState m state).methods = r.methods :=
  (methods_setState _ m state).trans (methods_modify r m fun _ => rfl)

theorem find_restored {r : Registry} {m : MethodId} {slot : Slot} (found : r.find? m = some slot)
    (between state : PatchState) (k : MethodId) :
    ((r.setState m between).setState m state).find? k =
      if k = m then some { slot with state } else r.find? k := by
  rw [find_setState, find_setState]
  by_cases same : k = m <;> simp [same, found]

end Registry

variable {σ ε : Type} {host : Host σ} {entry : σ → MethodId → ε} {running : ε → Option Body}

/-! ### Atomic hosts -/

namespace Host

/-- A request to run a body is refused and changes nothing, or the body runs and nothing else is
changed. -/
structure Replaces (entry : σ → MethodId → ε) (running : ε → Option Body) (w : World σ)
    (m : MethodId) (body : Body) (answer : Except HostError Unit × World σ) : Prop where
  registry : answer.2.registry = w.registry
  elsewhere : ∀ k, k ≠ m → entry answer.2.host k = entry w.host k
  granted : answer.1 = .ok () → running (entry answer.2.host m) = some body
  refused : ∀ e, answer.1 = .error e → entry answer.2.host m = entry w.host m

/-- Each request takes full effect or changes nothing. What the host holds of a method is its
`entry`, with the body that runs. -/
structure Atomic (host : Host σ) (entry : σ → MethodId → ε) (running : ε → Option Body) :
    Prop where
  load_registry : ∀ w m, (host.loadBody w m).2.registry = w.registry
  load_entry : ∀ w m k, entry (host.loadBody w m).2.host k = entry w.host k
  load_running : ∀ w m body, (host.loadBody w m).1 = .ok body →
    running (entry w.host m) = some body
  activate : ∀ w m body, Replaces entry running w m body (host.activate w m body)
  restore : ∀ w m body, Replaces entry running w m body (host.restore w m body)

end Host

/-! ### Patching and restoring one method -/

namespace World

/-- The methods are the same, and nothing is changed for any but one. -/
structure SameBut (entry : σ → MethodId → ε) (m : MethodId) (w after : World σ) : Prop where
  methods : after.registry.methods = w.registry.methods
  elsewhere : ∀ k, k ≠ m →
    after.registry.find? k = w.registry.find? k ∧ entry after.host k = entry w.host k

/-- A method runs the patched body of a handle that remembers the body it ran before, which was
loaded into a stream. The host was asked for it and granted it. -/
structure Placed (host : Host σ) (entry : σ → MethodId → ε) (running : ε → Option Body)
    (w after : World σ) (m : MethodId) (handle : Handle) : Prop where
  method : handle.method = m
  saved : running (entry w.host m) = some handle.saved
  patched : running (entry after.host m) = some handle.patched
  loaded : ∃ s, Stream.ofBody handle.saved = .ok s
  granted : ∃ u v, host.activate u m handle.patched = (.ok (), v) ∧
    entry v.host m = entry after.host m

theorem warnFallbacks_same (w : World σ) (method : String) (reports : List SpliceReport) :
    (w.warnFallbacks method reports).registry = w.registry ∧
      (w.warnFallbacks method reports).host = w.host := by
  unfold warnFallbacks
  split
  · next strict =>
    clear strict
    generalize reports.filter SpliceReport.usedFallback = warned
    induction warned generalizing w with
    | nil => exact ⟨rfl, rfl⟩
    | cons report warned ih => exact ih (w.logged .warning _)
  · exact ⟨rfl, rfl⟩

theorem assemble_loaded {method : String} {points : List Point} {body patched : Body}
    {reports : List SpliceReport}
    (assembled : Assembly.assemble method points body = (reports, .ok patched)) :
    ∃ s, Stream.ofBody body = .ok s := by
  unfold Assembly.assemble at assembled
  split at assembled
  · cases assembled
  · next s loaded => exact ⟨s, loaded⟩

theorem activatePatched_cases (atomic : host.Atomic entry running) (w : World σ) (m : MethodId)
    (name : String) (points : List Point) : ∃ result after,
      w.activatePatched host m name points = (result, after) ∧ after.registry = w.registry ∧
      (∀ k, k ≠ m → entry after.host k = entry w.host k) ∧
      ((∃ e, result = .error e ∧ entry after.host m = entry w.host m) ∨
        ∃ handle, result = .ok handle ∧ Placed host entry running w after m handle) := by
  have registry := atomic.load_registry w m
  have kept := atomic.load_entry w m
  have runs := atomic.load_running w m
  match loading : host.loadBody w m with
  | (.error e, u) =>
    rw [loading] at registry kept
    exact ⟨.error (.host e), u, by simp [activatePatched, loading], registry, fun k _ => kept k,
      .inl ⟨_, rfl, kept m⟩⟩
  | (.ok body, u) =>
    rw [loading] at registry kept runs
    match assembled : Assembly.assemble name points body with
    | (applied, result) =>
      obtain ⟨warned, unmoved⟩ := u.warnFallbacks_same name applied
      have same : ∀ k, entry (u.warnFallbacks name applied).host k = entry w.host k := fun k => by
        rw [unmoved]
        exact kept k
      cases result with
      | error e =>
        exact ⟨.error e, u.warnFallbacks name applied,
          by simp [activatePatched, loading, assembled], warned.trans registry, fun k _ => same k,
          .inl ⟨e, rfl, same m⟩⟩
      | ok patched =>
        have replaces := atomic.activate (u.warnFallbacks name applied) m patched
        match answered : host.activate (u.warnFallbacks name applied) m patched with
        | (answer, after) =>
          rw [answered] at replaces
          have still : after.registry = w.registry :=
            replaces.registry.trans (warned.trans registry)
          have others : ∀ k, k ≠ m → entry after.host k = entry w.host k := fun k other =>
            (replaces.elsewhere k other).trans (same k)
          cases answer with
          | error e =>
            exact ⟨.error (.host e), after, by simp [activatePatched, loading, assembled, answered],
              still, others, .inl ⟨_, rfl, (replaces.refused e rfl).trans (same m)⟩⟩
          | ok _ =>
            exact ⟨.ok ⟨m, name, body, patched, applied⟩, after,
              by simp [activatePatched, loading, assembled, answered], still, others,
              .inr ⟨_, rfl, rfl, runs body rfl, replaces.granted rfl, assemble_loaded assembled,
                _, after, answered, rfl⟩⟩

/-- An installation changes nothing, or it finds its method unpatched and leaves it unpatched or
with a handle of the body that ran and of the one that runs now. -/
theorem install_steps (atomic : host.Atomic entry running) (w : World σ) (m : MethodId) :
    (∃ result, w.install host m = (result, w) ∧ ∀ o, result = .ok o →
        o.isNew = false ∧ w.registry.state? m = some (.installed o.handle)) ∨
      ∃ result after slot, w.install host m = (result, after) ∧ w.registry.find? m = some slot ∧
        slot.state = .unpatched ∧ SameBut entry m w after ∧
        ((∃ e, result = .error e ∧ entry after.host m = entry w.host m ∧
            after.registry.find? m =
              some { slot with state := .unpatched, searches := slot.searches + 1 }) ∨
          ∃ handle, result = .ok ⟨handle, true⟩ ∧ Placed host entry running w after m handle ∧
            after.registry.find? m =
              some { slot with state := .installed handle, searches := slot.searches + 1 }) := by
  cases found : w.registry.find? m with
  | none =>
    exact .inl ⟨_, by simp only [install, World.slot, found]; rfl, fun o impossible => by
      cases impossible⟩
  | some slot =>
    cases state : slot.state with
    | installed handle =>
      refine .inl ⟨_, by simp only [install, World.slot, found, state]; rfl, fun o same => ?_⟩
      cases same
      exact ⟨rfl, by simp [Registry.state?, found, state]⟩
    | installing =>
      exact .inl ⟨_, by simp only [install, World.slot, found, state]; rfl, fun o impossible => by
        cases impossible⟩
    | uninstalling handle =>
      exact .inl ⟨_, by simp only [install, World.slot, found, state]; rfl, fun o impossible => by
        cases impossible⟩
    | unpatched =>
      obtain ⟨result, tried, done, registry, elsewhere, outcome⟩ := activatePatched_cases atomic
        (w.withRegistry (w.registry.startInstall m)) m slot.name slot.points
      have methods : ∀ state, (tried.registry.setState m state).methods = w.registry.methods :=
        fun state => registry ▸ w.registry.methods_installed m state
      have settled : ∀ (state : PatchState) (k : MethodId),
          ((tried.registry.setState m state).find? k) = if k = m then
            some { slot with state, searches := slot.searches + 1 } else w.registry.find? k :=
        fun state k => registry ▸ Registry.find_installed found state k
      rcases outcome with ⟨e, rfl, same⟩ | ⟨handle, rfl, placed⟩
      · refine .inr ⟨.error e, (tried.setState m .unpatched).logged .error
            ("Failed to install patch for " ++ slot.name ++ ": " ++ e.message), slot,
          by simp only [install, World.slot, found, state, done], rfl, state,
          ⟨methods _, fun k other => ⟨?_, elsewhere k other⟩⟩, .inl ⟨e, rfl, same, ?_⟩⟩
        · exact (settled _ k).trans (if_neg other)
        · exact (settled _ m).trans (if_pos rfl)
      · refine .inr ⟨.ok ⟨handle, true⟩, tried.setState m (.installed handle), slot,
          by simp only [install, World.slot, found, state, done], rfl, state,
          ⟨methods _, fun k other => ⟨?_, elsewhere k other⟩⟩, .inr ⟨handle, rfl, ?_, ?_⟩⟩
        · exact (settled _ k).trans (if_neg other)
        · exact ⟨placed.method, placed.saved, placed.patched, placed.loaded, placed.granted⟩
        · exact (settled _ m).trans (if_pos rfl)

/-- Taking a patch back finds its method not installed and changes nothing, or it leaves the method
installed with the same handle, because the host refused, or unpatched with the saved body
running. -/
theorem uninstall_steps (atomic : host.Atomic entry running) (w : World σ) (m : MethodId) :
    (∃ result, w.uninstall host m = (result, w) ∧
        ∀ handle, w.registry.state? m ≠ some (.installed handle)) ∨
      ∃ result after slot handle, w.uninstall host m = (result, after) ∧
        w.registry.find? m = some slot ∧ slot.state = .installed handle ∧
        SameBut entry m w after ∧
        ((∃ e, result = .error (.restoreFailed slot.name e) ∧
            entry after.host m = entry w.host m ∧
            after.registry.find? m = some { slot with state := .installed handle } ∧
            ∃ u v, host.restore u m handle.saved = (.error e, v) ∧
              entry u.host m = entry w.host m) ∨
          result = .ok true ∧ running (entry after.host m) = some handle.saved ∧
            after.registry.find? m = some { slot with state := .unpatched }) := by
  cases found : w.registry.find? m with
  | none =>
    exact .inl ⟨_, by simp only [uninstall, World.slot, found]; rfl,
      by simp [Registry.state?, found]⟩
  | some slot =>
    cases state : slot.state with
    | unpatched =>
      exact .inl ⟨_, by simp only [uninstall, World.slot, found, state]; rfl,
        by simp [Registry.state?, found, state]⟩
    | installing =>
      exact .inl ⟨_, by simp only [uninstall, World.slot, found, state]; rfl,
        by simp [Registry.state?, found, state]⟩
    | uninstalling handle =>
      exact .inl ⟨_, by simp only [uninstall, World.slot, found, state]; rfl,
        by simp [Registry.state?, found, state]⟩
    | installed handle =>
      have replaces := atomic.restore (w.setState m (.uninstalling handle)) m handle.saved
      generalize answered :
        host.restore (w.setState m (.uninstalling handle)) m handle.saved = answer at replaces
      obtain ⟨answer, tried⟩ := answer
      obtain ⟨same, elsewhere, granted, refused⟩ := replaces
      dsimp only at same elsewhere granted refused
      have methods : ∀ state, (tried.registry.setState m state).methods = w.registry.methods := by
        intro state
        rw [Registry.methods_setState, same]
        exact Registry.methods_setState _ m _
      have settled : ∀ (state : PatchState) (k : MethodId),
          (tried.registry.setState m state).find? k = if k = m then
            some { slot with state } else w.registry.find? k :=
        fun state k => same ▸ Registry.find_restored found (.uninstalling handle) state k
      cases answer with
      | error e =>
        refine .inr ⟨.error (.restoreFailed slot.name e),
          (tried.setState m (.installed handle)).logged .error
            ("Failed to restore original body of " ++ slot.name ++ ": " ++ e.message),
          slot, handle, ?_, rfl, state, ⟨methods _, fun k other => ⟨?_, elsewhere k other⟩⟩,
          .inl ⟨e, rfl, refused e rfl, ?_, _, tried, answered, rfl⟩⟩
        · simp only [uninstall, World.slot, found, state, answered]
        · exact (settled _ k).trans (if_neg other)
        · exact (settled _ m).trans (if_pos rfl)
      | ok _ =>
        refine .inr ⟨.ok true, tried.setState m .unpatched, slot, handle, ?_, rfl, state,
          ⟨methods _, fun k other => ⟨?_, elsewhere k other⟩⟩, .inr ⟨rfl, granted rfl, ?_⟩⟩
        · simp only [uninstall, World.slot, found, state, answered]
        · exact (settled _ k).trans (if_neg other)
        · exact (settled _ m).trans (if_pos rfl)

end World

end Interpose
