import Interpose.Proofs.Registry.Run
import Interpose.Proofs.Stream.RoundTrip

/-!
Installing all methods over a host in memory is all or nothing. What the host granted it also takes
back: the method was not locked when its patched body went in, and a body that was loaded into a
stream has no label that stands nowhere. Each method goes in or is refused as if it were the only
one, so the failure of the call is the failure of the first method that cannot go in by itself.
-/

set_option autoImplicit false
set_option relaxedAutoImplicit false

namespace Interpose

namespace Memory

variable {h after : Memory} {m : MethodId} {body : Body}

theorem activate_unlocked (done : h.activate m body = (.ok (), after)) :
    ∃ e, after.method? m = some e ∧ e.locked = false := by
  unfold activate at done
  split at done
  · cases done
  · next e found =>
    split at done
    · cases done
    · next unlocked =>
      split at done
      · obtain ⟨-, rfl⟩ := Prod.mk.inj done
        rw [method_modify, if_pos rfl, found]
        exact ⟨_, rfl, by simpa using unlocked⟩
      · cases done

theorem activate_accepts {e : MemoryMethod} (found : h.method? m = some e)
    (unlocked : e.locked = false) (sound : body.danglingLabels = []) :
    (h.activate m body).1 = .ok () := by
  simp [activate, found, unlocked, sound]

theorem activate_congr (same : after.method? m = h.method? m) (body : Body) :
    (after.activate m body).1 = (h.activate m body).1 := by
  simp only [activate, same]
  cases h.method? m with
  | none => rfl
  | some e =>
    dsimp only
    split
    · rfl
    · cases body.danglingLabels <;> rfl

end Memory

namespace World

variable {w u after : World Memory} {m k : MethodId} {ms : List MethodId} {handle : Handle}
  {outcomes : List InstallOutcome}

theorem activatePatched_result (w : World Memory) (m : MethodId) (name : String)
    (points : List Point) : (w.activatePatched .memory m name points).1 =
      match w.host.loadBody m with
      | .error e => .error (.host e)
      | .ok body =>
        match Assembly.assemble name points body with
        | (_, .error e) => .error e
        | (applied, .ok patched) =>
          (w.host.activate m patched).1.mapError .host |>.map fun _ =>
            ⟨m, name, body, patched, applied⟩ := by
  cases loaded : w.host.loadBody m with
  | error e => simp [activatePatched, Host.memory, loaded]
  | ok body =>
    rcases assembled : Assembly.assemble name points body with ⟨applied, e | patched⟩
    · simp [activatePatched, Host.memory, loaded, assembled]
    · have host := (w.warnFallbacks_same name applied).2
      rcases answered : w.host.activate m patched with ⟨e | done, after⟩
      all_goals
        simp [activatePatched, Host.memory, Host.memory.replace, loaded, assembled, host, answered,
          Except.mapError, Except.map]

theorem install_congr (same : SameAt Memory.method? m w u) :
    (u.install .memory m).1 = (w.install .memory m).1 := by
  have described : Host.memory.describe u.host m = Host.memory.describe w.host m := by
    simp only [Host.describe, Host.memory, Memory.nameOf?, same.entry]
  have tried : ∀ name points,
      ((u.withRegistry (u.registry.startInstall m)).activatePatched .memory m name points).1 =
        ((w.withRegistry (w.registry.startInstall m)).activatePatched .memory m name points).1 := by
    intro name points
    have load : u.host.loadBody m = w.host.loadBody m := by
      rw [Memory.loadBody, same.entry, Memory.loadBody]
    simp only [activatePatched_result, withRegistry, load, Memory.activate_congr same.entry]
  cases found : w.registry.find? m with
  | none => simp only [install, World.slot, same.slot, found, described]
  | some slot =>
    cases state : slot.state with
    | installed handle | installing | uninstalling handle =>
      simp only [install, World.slot, same.slot, found, state]
    | unpatched =>
      have result := tried slot.name slot.points
      rcases first : (u.withRegistry (u.registry.startInstall m)).activatePatched .memory m slot.name
        slot.points with ⟨answer, x⟩
      rcases second : (w.withRegistry (w.registry.startInstall m)).activatePatched .memory m slot.name
        slot.points with ⟨other, y⟩
      rw [first, second] at result
      obtain rfl : answer = other := result
      cases answer with
      | error e | ok handle =>
        simp only [install, World.slot, same.slot, found, state, first, second]

/-- Methods that go in one after the other each go in by themselves, with the same outcome. -/
theorem Installs.alone (distinct : ms.Nodup) (installs : Installs .memory w ms outcomes u)
    {base : World Memory} (start : ∀ k ∈ ms, SameAt Memory.method? k base w) :
    List.Forall₂ (fun k o => (base.install .memory k).1 = .ok o) ms outcomes := by
  induction installs with
  | none w => exact .nil
  | @more w u v m ms o outcomes installed rest ih =>
    obtain ⟨new, distinct⟩ := List.nodup_cons.mp distinct
    obtain ⟨others, -⟩ := install_settles Memory.atomic installed
    refine .cons ?_ (ih distinct fun k member => ?_)
    · rw [← install_congr (start m List.mem_cons_self), installed]
    · have other : k ≠ m := by
        rintro rfl
        exact new member
      exact (start k (List.mem_cons_of_mem _ member)).trans (others.at other)

/-- The host takes back what it granted, so a roll-back is not refused. -/
theorem Newly.not_refused {handle : Handle} {name : String} {e : PatchError}
    (newly : Newly .memory Memory.method? (Option.map MemoryMethod.active) w u m handle) :
    ¬ Refuses .memory Memory.method? u m handle name e := by
  rintro ⟨x, y, refusal, refused, same, -⟩
  obtain ⟨before, between, granted, there⟩ := newly.placed.granted
  obtain ⟨s, loaded⟩ := newly.placed.loaded
  match activated : before.host.activate m handle.patched with
  | (.error _, _) => simp [Host.memory, Host.memory.replace, activated] at granted
  | (.ok (), host) =>
    obtain ⟨entry, found, unlocked⟩ := Memory.activate_unlocked activated
    have now : between.host = host := by
      simp only [Host.memory, Host.memory.replace, activated, Prod.mk.injEq] at granted
      rw [← granted.2]
    have asked : x.host.method? m = some entry := by
      rw [same, ← there, now, found]
    have accepted := Memory.activate_accepts asked unlocked (Body.dangling_nil_iff.mpr ⟨s, loaded⟩)
    simp only [Host.memory, Host.memory.replace, Prod.mk.injEq] at refused
    rw [refused.1] at accepted
    cases accepted

theorem Settles.new_iff {o : InstallOutcome}
    (settles : Settles .memory Memory.method? (Option.map MemoryMethod.active) w u m o) :
    o.isNew = true ↔ w.registry.state? m = some .unpatched := by
  obtain ⟨state, ⟨old, same⟩ | ⟨new, newly⟩⟩ := settles
  · rw [old, ← same.state, state]
    simp
  · exact ⟨fun _ => newly.before, fun _ => new⟩

/-- Either all methods are installed then, those that were unpatched as new ones, or the error is
that of the first method that cannot go in, and every method is as it was. -/
theorem installAll_atomic {kept : MethodId → Prop} {strict : Bool} {start : Memory}
    (run : Run kept strict start w) :
    (∃ outcomes after, w.installAll .memory = (.ok outcomes, after) ∧
      List.Forall₂ (fun m o => (w.install .memory m).1 = .ok o ∧
        after.registry.state? m = some (.installed o.handle) ∧
        (o.isNew = true ↔ w.registry.state? m = some .unpatched)) w.registry.methods outcomes) ∨
    ∃ front m back e after, w.registry.methods = front ++ m :: back ∧
      (∀ k ∈ front, ∃ o, (w.install .memory k).1 = .ok o) ∧
      (w.install .memory m).1 = .error e ∧ w.installAll .memory = (.error e, after) ∧
      ∀ k, after.registry.state? k = w.registry.state? k ∧
        after.registry.handle? k = w.registry.handle? k ∧
        after.host.activeBody? k = w.host.activeBody? k := by
  have distinct := run.distinct
  rcases installs_cases .memory w w.registry.methods with ⟨outcomes, after, installs⟩ |
    ⟨front, m, back, outcomes, u, e, v, whole, installs, failed⟩
  · obtain ⟨-, settles⟩ := installs.settles Memory.atomic distinct fun _ _ => .refl
    have alone := installs.alone distinct fun _ _ => .refl
    refine .inl ⟨outcomes, after, installs.installEach [], ?_⟩
    exact List.Forall₂.mp (fun _ _ single settles => ⟨single, settles.1, settles.new_iff⟩) alone
      settles
  rw [whole] at distinct
  have alone := installs.alone (List.nodup_append'.mp distinct).1 fun _ _ => .refl
  obtain ⟨same, distinctNew, newly, old⟩ := installs.failing_settles Memory.atomic distinct failed
  have rolled := installs.installEach_failing failed [] back rfl
  rw [List.reverse_nil, List.nil_append, ← whole] at rolled
  generalize newMethods outcomes = new at distinctNew newly old rolled
  obtain ⟨taken, rest, after, parts, takes, others, before, -, outcome⟩ :=
    takesBack_new Memory.atomic (List.nodup_reverse.mpr distinctNew) fun k member =>
      newly k (List.mem_reverse.mp member)
  -- a refusal would be for a body that the host has just let go of
  rcases outcome with rfl | ⟨_, _, _, _, _, _, -, -, -, there, refuses⟩
  case inr => exact absurd refuses there.not_refused
  rw [List.append_nil] at parts
  subst parts
  rw [takes.rollBack] at rolled
  refine .inr ⟨front, m, back, e, after, whole, fun k member => ?_, ?_, rolled, fun k => ?_⟩
  · have each := alone.imp fun _ o single => And.intro (Exists.intro o single) single
    exact ((List.forall₂_and_left _ _).mp each).1 k member
  · rw [← install_congr same, failed]
  · have view : after.view Memory.method? (Option.map MemoryMethod.active) k =
        w.view Memory.method? (Option.map MemoryMethod.active) k := by
      by_cases member : k ∈ new.reverse
      · exact before k member
      · rw [(others k member).view, old k (by simpa using member)]
    obtain ⟨state, active⟩ := Prod.mk.inj view
    exact ⟨state, by rw [Registry.handle?, state, Registry.handle?], active⟩

/-- A host with two methods that are guarded, of which the second accepts no other body. -/
def latchedHost : Memory :=
  ⟨[⟨"open", guardedBody, guardedBody, 0, false⟩, ⟨"latched", guardedBody, guardedBody, 0, true⟩]⟩

theorem latched_installAll : ∃ w e after, Run (fun _ => False) true latchedHost w ∧
    w.registry.methods = [⟨1⟩, ⟨2⟩] ∧ (∃ o, (w.install .memory ⟨1⟩).1 = .ok o) ∧
    (w.install .memory ⟨2⟩).1 = .error e ∧ w.installAll .memory = (.error e, after) ∧
    ∀ k, after.registry.state? k = w.registry.state? k ∧
      after.registry.handle? k = w.registry.handle? k ∧
      after.host.activeBody? k = w.host.activeBody? k := by
  obtain ⟨w, whole, run⟩ : ∃ w, w = Call.perform (Call.perform ⟨latchedHost, .empty true, []⟩
      (.register (guardPatch "open"))) (.register (guardPatch "latched")) ∧
      Run (fun _ => False) true latchedHost w := ⟨_, rfl, .call _ (.call _ .new)⟩
  have methods : w.registry.methods = [⟨1⟩, ⟨2⟩] := by
    rw [whole]
    rfl
  have opened : ∃ o, (w.install .memory ⟨1⟩).1 = .ok o := by
    rw [whole]
    exact ⟨_, rfl⟩
  have latched : (w.install .memory ⟨2⟩).1 =
      .error (.host (.activationRejected "latched" "method is locked")) := by
    rw [whole]
    rfl
  rcases installAll_atomic run with ⟨outcomes, after, -, each⟩ |
    ⟨front, m, back, e, after, parts, before, failed, all, same⟩
  · rw [methods] at each
    obtain ⟨_, _, -, rest, rfl⟩ := List.forall₂_cons_left_iff.mp each
    obtain ⟨o, _, ⟨installed, -⟩, -, rfl⟩ := List.forall₂_cons_left_iff.mp rest
    rw [latched] at installed
    cases installed
  · rw [methods] at parts
    obtain ⟨rfl, rfl⟩ : front = [⟨1⟩] ∧ m = ⟨2⟩ := by
      rcases front with _ | ⟨k, _ | ⟨l, front⟩⟩
      · obtain ⟨rfl, -⟩ := List.cons.inj parts
        obtain ⟨o, installed⟩ := opened
        rw [installed] at failed
        cases failed
      · simp only [List.cons_append, List.nil_append, List.cons.injEq] at parts
        exact ⟨by rw [parts.1], parts.2.1.symm⟩
      · simp at parts
    exact ⟨w, e, after, run, methods, before _ List.mem_cons_self, failed, all, same⟩

end World

end Interpose
