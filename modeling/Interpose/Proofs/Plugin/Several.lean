import Interpose.Proofs.Dispatch.Enrolled
import Interpose.Proofs.Plugin.Lifecycle
import Interpose.Proofs.Splice.Order

/-!
Several plugins over one host in memory, loaded one after the other and unloaded in any order. Every
plugin saves the bodies that it finds, be they patched by others or not. So it is the plugin
unloaded last that decides which body a method runs in the end: the one that ran when that plugin
was loaded. This is the body from before all loads exactly if no plugin loaded earlier has points
for the method.
-/

set_option autoImplicit false
set_option relaxedAutoImplicit false

namespace Interpose

/-! ### Points make bodies longer -/

def Memory.size (h : Memory) (m : MethodId) : Nat :=
  (h.activeBody? m).elim 0 (·.code.length)

theorem Assembly.assemble_grows {method : String} {body patched : Body} {points : List Point}
    {reports : List SpliceReport}
    (assembled : assemble method points body = (reports, .ok patched)) :
    points = [] ∧ patched = body ∨
      points ≠ [] ∧ body.code.length < patched.code.length := by
  obtain ⟨s, t, loaded, spliced, rfl⟩ := assemble_ok assembled
  cases points with
  | nil =>
    cases spliced
    exact .inl ⟨rfl, Stream.ofBody_toBody loaded⟩
  | cons p points =>
    have grown : s.cells.length + (p :: points).length ≤ t.cells.length := by
      refine spliceAll_induction (P := fun done u => s.cells.length + done.length ≤ u.cells.length)
        (Stream.ofBody_wellFormed loaded) (by simp) ?_ spliced
      intro done q r u v site name _ holds _ one
      obtain ⟨before, onward, split, -, cells⟩ := one.cells
      have longer := one.nonempty
      rw [one.inserted] at longer
      rw [split, List.length_append] at holds
      rw [cells]
      simp only [List.length_append, Stream.length_numbered, Template.code_length,
        List.length_singleton]
      omega
    refine .inr ⟨by simp, ?_⟩
    rw [List.length_cons] at grown
    rw [← Stream.ofBody_toBody loaded, Stream.toBody, Stream.toBody, Stream.length_code,
      Stream.length_code]
    omega

namespace Plugin

open World (Restorable)

variable {start h x y : Memory} {r : Registry} {rs before later order : List Registry}
  {settings : Settings} {patches : List MethodPatch} {w : World Memory} {m : MethodId}

/-! ### Loading one after the other -/

/-- The host after plugins were loaded over it, with their registries. Between the loads methods may
be locked and unlocked. -/
inductive Loads (start : Memory) : List Registry → Memory → Prop
  | none : Loads start [] start
  | load {rs : List Registry} {h : Memory} {settings : Settings} {patches : List MethodPatch}
      {w : World Memory} : Loads start rs h → load .memory settings patches h = (.ok (), w) →
      Loads start (rs ++ [w.registry]) w.host
  | lock {rs : List Registry} {h : Memory} (m : MethodId) (locked : Bool) : Loads start rs h →
      Loads start rs (h.setLocked m locked)

/-- What a load does. The methods of the registry are installed, and their handles have saved the
bodies that ran before. -/
structure Loaded (h : Memory) (r : Registry) (after : Memory) : Prop where
  fixed : ∀ m, after.fixed m = h.fixed m
  apart : ∀ m, m ∉ r.methods → after.activeBody? m = h.activeBody? m
  installed : ∀ m ∈ r.methods, ∃ slot handle, r.find? m = some slot ∧
    slot.state = .installed handle ∧ slot.Assembled handle ∧
    h.activeBody? m = some handle.saved ∧ after.activeBody? m = some handle.patched
  restorable : Restorable ⟨after, r, []⟩

theorem loaded_of_ok (loads : load .memory settings patches h = (.ok (), w)) :
    Loaded h w.registry w.host := by
  obtain ⟨run, installed⟩ := load_ok loads
  have intact : ∀ m, World.Intact h w m := fun m => run.intact trivial
  refine ⟨load_fixed loads, fun m absent => ?_, fun m member => ?_,
    run.restorable.over run.restorable.known []⟩
  · refine (intact m).of_not_installed fun handle state => absent ?_
    obtain ⟨slot, found, -⟩ := Option.map_eq_some_iff.mp state
    exact Registry.mem_of_find found
  · obtain ⟨handle, state⟩ := installed m member
    obtain ⟨slot, found, here⟩ := Option.map_eq_some_iff.mp state
    exact ⟨slot, handle, found, here, run.assembled m slot handle found here,
      (intact m).of_installed state⟩

theorem pointsOf_absent (absent : m ∉ r.methods) : r.pointsOf m = [] := by
  have missing : r.find? m = none :=
    Option.eq_none_iff_forall_ne_some.mpr fun slot found => absent (Registry.mem_of_find found)
  rw [Registry.pointsOf, missing]
  rfl

theorem Loaded.grows (loaded : Loaded h r y) (m : MethodId) :
    r.pointsOf m = [] ∧ y.activeBody? m = h.activeBody? m ∨
      r.pointsOf m ≠ [] ∧ h.size m < y.size m := by
  by_cases member : m ∈ r.methods
  · obtain ⟨slot, handle, found, -, assembled, saved, patched⟩ := loaded.installed m member
    rw [Registry.pointsOf_find found, Memory.size, Memory.size, saved, patched]
    rcases Assembly.assemble_grows assembled with ⟨none, same⟩ | longer
    · exact .inl ⟨none, by rw [same]⟩
    · exact .inr longer
  · exact .inl ⟨pointsOf_absent member, loaded.apart m member⟩

namespace Loads

theorem pristine (loads : Loads start rs h) (m : MethodId) :
    h.pristineBody? m = start.pristineBody? m := by
  induction loads with
  | none => rfl
  | load _ loaded ih =>
    rw [Memory.pristine_fixed, (loaded_of_ok loaded).fixed, ← Memory.pristine_fixed, ih]
  | @lock _ h k locked _ ih =>
    rw [← ih, Memory.pristineBody?, Memory.setLocked, Memory.method_modify]
    split
    · rw [Option.map_map]
      rfl
    · rfl

theorem grows (loads : Loads start rs h) (m : MethodId) :
    (∀ r ∈ rs, r.pointsOf m = []) ∧ h.activeBody? m = start.activeBody? m ∨
      (∃ r ∈ rs, r.pointsOf m ≠ []) ∧ start.size m < h.size m := by
  induction loads with
  | none => exact .inl ⟨by simp, rfl⟩
  | @load rs h settings patches w _ loaded ih =>
    have last : w.registry ∈ rs ++ [w.registry] := by simp
    -- One plugin with points is enough, since no load makes a body shorter.
    rcases (loaded_of_ok loaded).grows m with ⟨idle, same⟩ | ⟨points, longer⟩
    · rcases ih with ⟨none, active⟩ | ⟨⟨r, member, points⟩, longer⟩
      · refine .inl ⟨fun r member => ?_, same.trans active⟩
        rcases List.mem_append.mp member with member | member
        · exact none r member
        · rw [List.mem_singleton.mp member]
          exact idle
      · refine .inr ⟨⟨r, List.mem_append_left _ member, points⟩, ?_⟩
        rwa [Memory.size, Memory.size, same, ← Memory.size, ← Memory.size]
    · refine .inr ⟨⟨_, last, points⟩, ?_⟩
      rcases ih with ⟨-, active⟩ | ⟨-, more⟩
      · rwa [Memory.size, ← active, ← Memory.size]
      · exact more.trans longer
  | lock k locked _ ih =>
    simpa only [Memory.size, Memory.active_setLocked] using ih

theorem active_iff (loads : Loads start rs h) (m : MethodId) :
    h.activeBody? m = start.activeBody? m ↔ ∀ r ∈ rs, r.pointsOf m = [] := by
  rcases loads.grows m with ⟨none, active⟩ | ⟨⟨r, member, points⟩, longer⟩
  · exact ⟨fun _ => none, fun _ => active⟩
  · refine ⟨fun active => ?_, fun none => absurd (none r member) points⟩
    rw [Memory.size, Memory.size, active] at longer
    exact absurd longer (lt_irrefl _)

theorem split (loads : Loads start rs h) (whole : rs = before ++ r :: later) :
    ∃ x y, Loads start before x ∧ Loaded x r y := by
  induction loads generalizing later with
  | none => simp at whole
  | @load rs h settings patches w loads loaded ih =>
    rcases List.eq_nil_or_concat later with rfl | ⟨later, last, rfl⟩
    · obtain ⟨rfl, same⟩ := List.append_inj' whole rfl
      obtain rfl := List.singleton_inj.mp same
      exact ⟨h, w.host, loads, loaded_of_ok loaded⟩
    · rw [List.concat_eq_append, ← List.cons_append, ← List.append_assoc] at whole
      exact ih (List.append_inj' whole rfl).1
  | lock _ _ _ ih => exact ih whole

theorem restorable (loads : Loads start rs h) (member : r ∈ rs) : Restorable ⟨h, r, []⟩ := by
  obtain ⟨before, later, whole⟩ := List.append_of_mem member
  obtain ⟨x, y, first, loaded⟩ := loads.split whole
  refine loaded.restorable.over (fun m known => ?_) []
  have known := loaded.restorable.known m known
  rw [Memory.known_of_fixed (loaded.fixed m), Memory.known_pristine, first.pristine] at known
  rw [Memory.known_pristine, loads.pristine]
  exact known

end Loads

/-! ### Unloading in some order -/

/-- Unloads plugins one after the other, up to the first that cannot be unloaded. -/
def unloadEach (h : Memory) : List Registry → Except UnloadError Memory
  | [] => .ok h
  | r :: rs =>
    match unload .memory ⟨h, r, []⟩ with
    | (.ok _, w) => unloadEach w.host rs
    | (.error e, _) => .error e

/-- Where nothing is locked, all plugins can be unloaded, and the last one with a method installed
gives back the body it saved. -/
theorem unloadEach_ok (restorable : ∀ r ∈ order, Restorable ⟨h, r, []⟩)
    (unlocked : ∀ m, h.isLocked m = false) :
    ∃ final, unloadEach h order = .ok final ∧ ∀ m, final.fixed m = h.fixed m ∧
      ((∀ r ∈ order, m ∉ r.installed) → final.activeBody? m = h.activeBody? m) ∧
      ∀ early r late handle, order = early ++ r :: late → r.state? m = some (.installed handle) →
        (∀ s ∈ late, m ∉ s.installed) → final.activeBody? m = some handle.saved := by
  induction order generalizing h with
  | nil => exact ⟨h, rfl, fun m => ⟨rfl, fun _ => rfl, fun early => by cases early <;> simp⟩⟩
  | cons r rs ih =>
    have ready := restorable r List.mem_cons_self
    obtain ⟨result, all, -, counted, -⟩ := unload_unloads ready
    match unloaded : unload .memory ⟨h, r, []⟩ with
    | (answer, w) =>
    rw [unloaded] at all counted
    obtain rfl := counted fun m _ => unlocked m
    -- The others can still be unloaded, since this one changed nothing of a method but its body.
    have onward : ∀ s ∈ rs, Restorable ⟨w.host, s, []⟩ := by
      intro s member
      have ready := restorable s (List.mem_cons_of_mem _ member)
      exact ready.over (fun m there => Memory.known_of_fixed (all.fixed m) ▸ ready.known m there) []
    obtain ⟨final, done, each⟩ := ih onward fun m => (all.locked_iff m).trans (unlocked m)
    refine ⟨final, by rw [unloadEach, unloaded]; exact done, fun m => ?_⟩
    obtain ⟨fixed, apart, last⟩ := each m
    refine ⟨fixed.trans (all.fixed m), fun none => ?_,
      fun early s late handle whole installed rest => ?_⟩
    · have same := all.stays m fun inside => absurd inside (none r List.mem_cons_self)
      rw [apart fun s member => none s (List.mem_cons_of_mem _ member), Memory.activeBody?,
        same.entry, ← Memory.activeBody?]
    · cases early with
      | nil =>
        obtain ⟨rfl, rfl⟩ := List.cons.inj whole
        rw [apart rest]
        exact (all.gives_back m handle installed (unlocked m)).2
      | cons _ early => exact last early s late handle (List.cons.inj whole).2 installed rest

/-- Plugins that were loaded one after the other can be unloaded in any order where nothing is
locked. Then every method that none of them was for runs the body from before all loads. Any other
runs the body that ran when the plugin unloaded last among those for it was loaded, which is the one
from before all loads exactly if no plugin loaded earlier has points for the method. -/
theorem last_unloaded_decides (loads : Loads start rs h) (perm : order.Perm rs)
    (unlocked : ∀ m, h.isLocked m = false) :
    ∃ final, unloadEach h order = .ok final ∧ ∀ m,
      final.pristineBody? m = start.pristineBody? m ∧
      ((∀ r ∈ rs, m ∉ r.methods) → final.activeBody? m = start.activeBody? m) ∧
      ∀ early r late, order = early ++ r :: late → m ∈ r.methods → (∀ s ∈ late, m ∉ s.methods) →
        ∀ before later, rs = before ++ r :: later →
          (∃ x, Loads start before x ∧ final.activeBody? m = x.activeBody? m) ∧
          (final.activeBody? m = start.activeBody? m ↔ ∀ s ∈ before, s.pointsOf m = []) := by
  obtain ⟨final, done, each⟩ :=
    unloadEach_ok (fun r member => loads.restorable (perm.mem_iff.mp member)) unlocked
  refine ⟨final, done, fun m => ?_⟩
  obtain ⟨fixed, apart, last⟩ := each m
  have outside : ∀ {s : Registry}, m ∉ s.methods → m ∉ s.installed :=
    fun absent inside => absent (Registry.mem_of_installed inside)
  refine ⟨?_, fun none => ?_, fun early r late whole member rest before later parts => ?_⟩
  · rw [Memory.pristine_fixed, fixed, ← Memory.pristine_fixed, loads.pristine]
  · rw [apart fun s there => outside (none s (perm.mem_iff.mp there)), loads.active_iff]
    exact fun s there => pointsOf_absent (none s there)
  · obtain ⟨x, y, first, loaded⟩ := loads.split parts
    obtain ⟨slot, handle, found, state, -, saved, -⟩ := loaded.installed m member
    have installed : r.state? m = some (.installed handle) := by
      rw [Registry.state?, found, Option.map_some, state]
    have runs := last early r late handle whole installed fun s there => outside (rest s there)
    rw [← saved] at runs
    exact ⟨⟨x, first, runs⟩, by rw [runs, first.active_iff]⟩

def watchPatch : MethodPatch :=
  ⟨"guarded", match watchPoint.build with
    | .ok p => [(p, .augment "watched")]
    | .error _ => []⟩

theorem unload_in_reverse : ∃ a b final,
    load .memory .standard [World.guardPatch "guarded"] World.guardedHost = (.ok (), a) ∧
    load .memory .standard [watchPatch] a.host = (.ok (), b) ∧
    b.host.activeBody? ⟨1⟩ ≠ some guardedBody ∧
    unloadEach b.host [b.registry, a.registry] = .ok final ∧
    final.activeBody? ⟨1⟩ = some guardedBody := by
  obtain ⟨a, first⟩ : ∃ a, load .memory .standard [World.guardPatch "guarded"]
    World.guardedHost = (.ok (), a) := ⟨_, rfl⟩
  obtain ⟨b, second⟩ : ∃ b, load .memory .standard [watchPatch] a.host = (.ok (), b) := by
    cases first
    exact ⟨_, rfl⟩
  have loads : Loads World.guardedHost [a.registry, b.registry] b.host :=
    (Loads.none.load first).load second
  have unlocked : ∀ m, b.host.isLocked m = false := by
    intro m
    rw [Memory.locked_fixed, (loaded_of_ok second).fixed, (loaded_of_ok first).fixed]
    rcases m with ⟨_ | _ | n⟩ <;> rfl
  obtain ⟨final, done, each⟩ :=
    last_unloaded_decides loads (List.Perm.swap a.registry _ []) unlocked
  have known : ⟨1⟩ ∈ a.registry.methods := by
    cases first
    decide
  obtain ⟨-, active⟩ := (each ⟨1⟩).2.2 [b.registry] a.registry [] rfl known (by simp) [] _ rfl
  have patched : b.host.activeBody? ⟨1⟩ ≠ some guardedBody := by
    cases first
    cases second
    decide
  exact ⟨a, b, final, first, second, patched, done, active.mpr (by simp)⟩

/-- Unloaded in the order of their loads, the second plugin gives back the body that the first one
had patched, and which nobody owns any more. -/
theorem unload_in_order : ∃ a b final,
    load .memory .standard [World.guardPatch "guarded"] World.guardedHost = (.ok (), a) ∧
    load .memory .standard [watchPatch] a.host = (.ok (), b) ∧
    (∀ m, b.host.isLocked m = false) ∧
    unloadEach b.host [a.registry, b.registry] = .ok final ∧
    final.activeBody? ⟨1⟩ ≠ final.pristineBody? ⟨1⟩ := by
  refine ⟨_, _, _, rfl, rfl, fun m => ?_, rfl, by decide⟩
  rcases m with ⟨_ | _ | n⟩ <;> rfl

end Plugin

end Interpose
