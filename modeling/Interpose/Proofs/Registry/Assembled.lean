import Interpose.Proofs.Registry.Evolves

/-!
Installed methods. Whatever calls are made, an installed method has a handle whose patched body was
assembled from the saved one with exactly the points that the method has.
-/

set_option autoImplicit false
set_option relaxedAutoImplicit false

namespace Interpose

/-- Every installed method has a handle with the body assembled from its points. -/
def Registry.Assembled (r : Registry) : Prop :=
  ∀ m slot handle, r.find? m = some slot → slot.state = .installed handle → slot.Assembled handle

namespace Registry

variable {r t : Registry} {es : List Enrollment}

theorem assembled_empty (strict : Bool) : (Registry.empty strict).Assembled := by
  intro m slot handle known
  cases known

theorem Assembled.setState {m : MethodId} (state : PatchState) (assembled : r.Assembled)
    (other : ∀ handle, state ≠ .installed handle) (f : Slot → Slot)
    (keeps : ∀ slot, (f slot).method = slot.method ∧ (f slot).state = state) :
    (r.modify m f).Assembled := by
  intro k slot handle known installed
  rw [find_modify r m k fun slot => (keeps slot).1] at known
  split at known
  · obtain ⟨old, -, rfl⟩ := Option.map_eq_some_iff.mp known
    exact absurd ((keeps old).2.symm.trans installed) (other handle)
  · exact assembled k slot handle known installed

theorem Evolves.assembled (evolves : Evolves r es t) (assembled : r.Assembled) : t.Assembled := by
  induction evolves with
  | rest r => exact assembled
  | add _ added ih =>
    intro k slot handle known installed
    rcases find_add added k with same | ⟨-, other, there, unpatched, -⟩
    · exact ih assembled k slot handle (same.symm.trans known) installed
    · obtain rfl := Option.some.inj (there.symm.trans known)
      cases unpatched.symm.trans installed
  | @patch r s t _ _ m there state _ found _ inner outcome before within =>
    have inside := within ((before assembled).setState .installing (by simp)
      (fun slot => { slot with state := .installing, searches := slot.searches + 1 })
      fun _ => ⟨rfl, rfl⟩)
    intro k slot handle known installed
    rw [find_patched found inner] at known
    split at known
    · obtain rfl := Option.some.inj known
      rcases outcome with rfl | ⟨new, rfl, assembles⟩
      · cases installed
      · obtain rfl := PatchState.installed.inj installed
        exact assembles
    · exact inside k slot handle known installed
  | @restore r s t _ _ m there old state _ found before inner outcome first within =>
    have inside := within ((first assembled).setState (.uninstalling old) (by simp)
      (fun slot => { slot with state := .uninstalling old }) fun _ => ⟨rfl, rfl⟩)
    intro k slot handle known installed
    rw [find_restored found inner] at known
    split at known
    · obtain rfl := Option.some.inj known
      rcases outcome with rfl | rfl
      · cases installed
      · exact first assembled m there handle found (before.trans installed)
    · exact inside k slot handle known installed

end Registry

namespace Assembly

variable {method : String} {body patched : Body} {points : List Point}
  {reports : List SpliceReport}

theorem assemble_ok (assembled : assemble method points body = (reports, .ok patched)) :
    ∃ s t, Stream.ofBody body = .ok s ∧ spliceAll s points = (reports, .ok t) ∧
      patched = t.toBody := by
  unfold assemble at assembled
  split at assembled
  · simp at assembled
  next s loaded =>
  split at assembled
  · simp at assembled
  next applied t spliced =>
  cases checked : check method s t with
  | error e => simp [checked, Except.map] at assembled
  | ok =>
    simp only [checked, Except.map, Prod.mk.injEq, Except.ok.injEq] at assembled
    obtain ⟨rfl, rfl⟩ := assembled
    exact ⟨s, t, loaded, spliced, rfl⟩

theorem spliceAll_induction {P : List Point → Stream → Prop} {s t : Stream} (ok : s.WellFormed)
    (start : P [] s)
    (step : ∀ done p r s t site name, p ∈ points → P done s → p.site s = .ok site →
      p.Spliced s site r t name → P (done ++ [p]) t)
    (spliced : spliceAll s points = (reports, .ok t)) : P points t := by
  suffices general : ∀ done, P done s → P (done ++ points) t from general [] start
  clear start
  induction points generalizing s reports with
  | nil =>
    intro done holds
    cases spliced
    simpa using holds
  | cons p points ih =>
    intro done holds
    match applied : p.apply s with
    | (.error e, u) => simp [spliceAll, applied] at spliced
    | (.ok r, u) =>
      obtain ⟨site, name, found, one, kept⟩ := Point.apply_spliced ok applied
      simp only [spliceAll, applied, Prod.mk.injEq] at spliced
      have rest := ih kept (fun done q r s t site name member =>
          step done q r s t site name (List.mem_cons_of_mem _ member))
        (Prod.ext rfl spliced.2) (done ++ [p])
        (step done p r s u site name List.mem_cons_self holds found one)
      rwa [List.append_assoc, List.singleton_append] at rest

end Assembly

end Interpose
