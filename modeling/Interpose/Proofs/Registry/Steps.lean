import Interpose.Proofs.Registry.Atomic

/-!
What the registry's operations do to the methods of a host in memory. The host is atomic: patching
or restoring one method leaves what is known of every other as it was, and the host's entry of every
other.
-/

set_option autoImplicit false
set_option relaxedAutoImplicit false

namespace Interpose

/-! ### The host in memory -/

namespace Memory

variable {h : Memory} {m k : MethodId}

theorem method_modify (h : Memory) (m k : MethodId) (f : MemoryMethod → MemoryMethod) :
    (h.modify m f).method? k = if k = m then (h.method? k).map f else h.method? k := by
  obtain ⟨i⟩ := m
  obtain ⟨j⟩ := k
  cases i with
  | zero =>
    cases j with
    | zero => rfl
    | succ j => rfl
  | succ i =>
    cases j with
    | zero => rfl
    | succ j =>
      simp only [modify, method?, List.getElem?_modify, MethodId.mk.injEq, Nat.add_right_cancel_iff]
      by_cases same : i = j
      · simp [same]
      · simp [same, Ne.symm same]

theorem active_setLocked (h : Memory) (m k : MethodId) (locked : Bool) :
    (h.setLocked m locked).activeBody? k = h.activeBody? k := by
  simp only [activeBody?, setLocked, method_modify]
  split
  · simp [Option.map_map, Function.comp_def]
  · rfl

theorem activate_cases (h : Memory) (m : MethodId) (body : Body) :
    (∃ e, h.activate m body = (.error e, h)) ∨
      ∃ after, h.activate m body = (.ok (), after) ∧ after.activeBody? m = some body ∧
        ∀ k, k ≠ m → after.method? k = h.method? k := by
  cases found : h.method? m with
  | none => exact .inl ⟨_, by simp only [activate, found]; rfl⟩
  | some e =>
    by_cases locked : e.locked = true
    · exact .inl ⟨_, by simp only [activate, found, locked, if_true]; rfl⟩
    · cases dangling : body.danglingLabels with
      | cons l ls => exact .inl ⟨_, by simp only [activate, found, locked, dangling]; rfl⟩
      | nil =>
        refine .inr ⟨_, by simp only [activate, found, locked, dangling]; rfl, ?_,
          fun k other => ?_⟩
        · simp [activeBody?, method_modify, found]
        · rw [method_modify, if_neg other]

theorem loadBody_ok {body : Body} (loaded : h.loadBody m = .ok body) :
    h.activeBody? m = some body := by
  unfold loadBody at loaded
  split at loaded
  · cases loaded
  · next e found =>
    split at loaded
    · cases loaded
    · simp [activeBody?, found, Except.ok.inj loaded]

theorem atomic : Host.memory.Atomic Memory.method? (Option.map MemoryMethod.active) := by
  have replaces : ∀ (w : World Memory) (m : MethodId) (body : Body),
      Host.Replaces Memory.method? (Option.map MemoryMethod.active) w m body
        (Host.memory.replace w m body) := by
    intro w m body
    rcases w.host.activate_cases m body with ⟨e, refused⟩ | ⟨after, done, there, elsewhere⟩
    · rw [Host.memory.replace, refused]
      refine ⟨rfl, fun _ _ => rfl, fun impossible => ?_, fun _ _ => rfl⟩
      cases impossible
    · rw [Host.memory.replace, done]
      refine ⟨rfl, elsewhere, fun _ => there, fun _ impossible => ?_⟩
      cases impossible
  exact ⟨fun _ _ => rfl, fun _ _ _ => rfl, fun _ _ _ loaded => loadBody_ok loaded, replaces,
    replaces⟩

theorem resolve_ok {name : String} (resolved : h.resolve name = .ok m) :
    ∃ body, h.activeBody? m = some body := by
  unfold resolve at resolved
  split at resolved
  · next k found =>
    obtain rfl := Except.ok.inj resolved
    obtain ⟨n, index, rfl⟩ := Option.map_eq_some_iff.mp found
    obtain ⟨bound, -⟩ := List.findIdx?_eq_some_iff_getElem.mp index
    exact ⟨h.methods[n].active, by simp [activeBody?, method?, bound]⟩
  · cases resolved

end Memory

/-! ### The registry -/

namespace Registry

theorem find_add {r after : Registry} {m : MethodId} {name : String}
    {points : List (Point × Callback)} (added : r.add m name points = .ok after) (k : MethodId) :
    after.find? k = r.find? k ∨
      k = m ∧ ∃ slot, after.find? k = some slot ∧ slot.state = .unpatched ∧
        ∀ old, r.find? k = some old → old.state = .unpatched := by
  unfold add at added
  split at added
  · cases added
  next dispatcher _ =>
  split at added
  · next new =>
    cases added
    by_cases same : k = m
    · subst same
      refine .inr ⟨rfl, ⟨k, name, points.map (·.1), .unpatched, 0⟩, ?_, rfl, by simp [new]⟩
      simp only [find?] at new ⊢
      simp [List.find?_append, new]
    · left
      have other : m ≠ k := fun equal => same equal.symm
      simp [find?, List.find?_append, other]
  · next slot found =>
    split at added
    · next unpatched =>
      cases added
      have changed := find_modify r m k
        (f := fun s => { s with points := s.points ++ points.map (·.1) }) fun _ => rfl
      by_cases same : k = m
      · subst same
        refine .inr ⟨rfl, { slot with points := slot.points ++ points.map (·.1) },
          changed.trans (by rw [if_pos rfl, found]; rfl), unpatched, fun old here => ?_⟩
        rwa [← Option.some.inj (found.symm.trans here)]
      · exact .inl (changed.trans (if_neg same))
    · cases added

end Registry

/-! ### Patching and restoring one method -/

namespace World

variable {w : World Memory} {m : MethodId}

def SameElsewhere (m : MethodId) (w after : World Memory) : Prop :=
  ∀ k, k ≠ m → after.registry.find? k = w.registry.find? k ∧ after.host.method? k = w.host.method? k

theorem install_sameElsewhere (w : World Memory) (m : MethodId) :
    SameElsewhere m w (w.install .memory m).2 := by
  rcases w.install_steps Memory.atomic m with
    ⟨result, same, -⟩ | ⟨result, after, slot, done, -, -, elsewhere, -⟩
  · rw [same]
    exact fun _ _ => ⟨rfl, rfl⟩
  · rw [done]
    exact elsewhere.elsewhere

theorem uninstall_sameElsewhere (w : World Memory) (m : MethodId) :
    SameElsewhere m w (w.uninstall .memory m).2 := by
  rcases w.uninstall_steps Memory.atomic m with
    ⟨result, same, -⟩ | ⟨result, after, slot, _, done, -, -, elsewhere, -⟩
  · rw [same]
    exact fun _ _ => ⟨rfl, rfl⟩
  · rw [done]
    exact elsewhere.elsewhere

end World

end Interpose
