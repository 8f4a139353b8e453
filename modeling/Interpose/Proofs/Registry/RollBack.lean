import Interpose.Proofs.Registry.Run

/-!
How far a failed installation of all methods is taken back, over any atomic host. A host may refuse
to restore a method as well. The roll-back then stops there: the methods that went in before the
refused one are not asked back and keep their patched bodies. So every new method is asked back if
and only if the host refuses none but the first of them, which the roll-back reaches last.
-/

set_option autoImplicit false
set_option relaxedAutoImplicit false

namespace Interpose

/-- What a host is asked to run, and whether it does. -/
inductive Request
  | activate (m : MethodId) (granted : Bool)
  | restore (m : MethodId) (granted : Bool)
  deriving DecidableEq

def Request.placed? : Request → Option MethodId
  | .activate m true => some m
  | .activate _ false | .restore .. => none

def Request.restored? : Request → Option MethodId
  | .restore m _ => some m
  | .activate .. => none

namespace Request

/-- What is asked when not all methods can be installed: the new ones go in, one is refused or not
even asked for, and then methods are asked back, up to the first that is refused. -/
def ofFailure (new : List MethodId) (failing : Option MethodId) (taken rest : List MethodId) :
    List Request :=
  new.map (.activate · true) ++ failing.toList.map (.activate · false) ++
    taken.map (.restore · true) ++ rest.head?.toList.map (.restore · false)

def forResult (m : MethodId) : Except PatchError Bool → List Request
  | .ok true => [.restore m true]
  | .error (.restoreFailed _ _) => [.restore m false]
  | _ => []

variable {new taken rest : List MethodId} {failing : Option MethodId} {k : MethodId}

theorem placed_of_failure : (ofFailure new failing taken rest).filterMap placed? = new := by
  simp [ofFailure, placed?, Function.comp_def]

theorem restored_of_failure :
    (ofFailure new failing taken rest).filterMap restored? = taken ++ rest.head?.toList := by
  simp [ofFailure, restored?, Function.comp_def]

theorem activated_of_failure : .activate k true ∈ ofFailure new failing taken rest ↔ k ∈ new := by
  simp [ofFailure]

theorem granted_of_failure : .restore k true ∈ ofFailure new failing taken rest ↔ k ∈ taken := by
  simp [ofFailure]

theorem refused_of_failure :
    .restore k false ∈ ofFailure new failing taken rest ↔ rest.head? = some k := by
  simp [ofFailure]

end Request

variable {σ ε : Type} {host : Host σ} {entry : σ → MethodId → ε} {running : ε → Option Body}

namespace World

/-- The world over a host that also keeps what it was asked. -/
def recording (w : World σ) (requests : List Request) : World (σ × List Request) :=
  ⟨(w.host, requests), w.registry, w.log⟩

def plain (w : World (σ × List Request)) : World σ := ⟨w.host.1, w.registry, w.log⟩

@[simp] theorem plain_recording (w : World σ) (requests : List Request) :
    (w.recording requests).plain = w := rfl

@[simp] theorem requests_recording (w : World σ) (requests : List Request) :
    (w.recording requests).host.2 = requests := rfl

@[simp] theorem registry_recording (w : World σ) (requests : List Request) :
    (w.recording requests).registry = w.registry := rfl

@[simp] theorem rollingBack_recording (w : World σ) (requests : List Request)
    (ms : List MethodId) : (w.recording requests).rollingBack ms =
      (w.rollingBack ms).recording requests := rfl

end World

/-- The same host, which keeps what it was asked, the latest request last. -/
def Host.recorded (host : Host σ) : Host (σ × List Request) where
  resolve state := host.resolve state.1
  nameOf? state := host.nameOf? state.1
  loadBody w m :=
    let (result, after) := host.loadBody w.plain m
    (result, after.recording w.host.2)
  activate w m body :=
    let (result, after) := host.activate w.plain m body
    (result, after.recording (w.host.2 ++ [.activate m result.isOk]))
  restore w m body :=
    let (result, after) := host.restore w.plain m body
    (result, after.recording (w.host.2 ++ [.restore m result.isOk]))

namespace Host

variable {w after : World σ} {m : MethodId} {body : Body} (requests : List Request)

theorem recorded_loadBody {result : Except HostError Body}
    (loaded : host.loadBody w m = (result, after)) :
    host.recorded.loadBody (w.recording requests) m = (result, after.recording requests) := by
  simp only [recorded, World.plain_recording, loaded, World.requests_recording]

theorem recorded_activate {result : Except HostError Unit}
    (answered : host.activate w m body = (result, after)) :
    host.recorded.activate (w.recording requests) m body =
      (result, after.recording (requests ++ [.activate m result.isOk])) := by
  simp only [recorded, World.plain_recording, answered, World.requests_recording]

theorem recorded_restore {result : Except HostError Unit}
    (answered : host.restore w m body = (result, after)) :
    host.recorded.restore (w.recording requests) m body =
      (result, after.recording (requests ++ [.restore m result.isOk])) := by
  simp only [recorded, World.plain_recording, answered, World.requests_recording]

end Host

namespace World

variable {w u v after : World σ} {m k : MethodId} {ms : List MethodId} {handle : Handle}
  {outcomes : List InstallOutcome} {requests : List Request}

/-! ### What is asked -/

theorem warnFallbacks_recording (w : World σ) (requests : List Request) (method : String)
    (reports : List SpliceReport) : (w.recording requests).warnFallbacks method reports =
      (w.warnFallbacks method reports).recording requests := by
  unfold warnFallbacks
  change (if w.registry.strict then _ else _) = _
  split
  · next strict =>
    clear strict
    generalize reports.filter SpliceReport.usedFallback = warned
    induction warned generalizing w with
    | nil => rfl
    | cons report warned ih => exact ih (w.logged .warning _)
  · rfl

def Asks (m : MethodId) (more : List Request) : Except PatchError InstallOutcome → Prop
  | .ok o => more = if o.isNew then [.activate m true] else []
  | .error _ => more = [] ∨ more = [.activate m false]

theorem activatePatched_recorded (host : Host σ) (w : World σ) (requests : List Request)
    (m : MethodId) (name : String) (points : List Point) :
    ∃ result after more, w.activatePatched host m name points = (result, after) ∧
      (w.recording requests).activatePatched host.recorded m name points =
        (result, after.recording (requests ++ more)) ∧
      Asks m more (result.map fun handle => ⟨handle, true⟩) := by
  rcases loaded : host.loadBody w m with ⟨e | body, u⟩
  · refine ⟨.error (.host e), u, [], by simp only [activatePatched, loaded], ?_, .inl rfl⟩
    rw [activatePatched, Host.recorded_loadBody requests loaded, List.append_nil]
  · have same := Host.recorded_loadBody requests loaded
    rcases assembled : Assembly.assemble name points body with ⟨applied, e | patched⟩
    · refine ⟨.error e, u.warnFallbacks name applied, [],
        by simp only [activatePatched, loaded, assembled], ?_, .inl rfl⟩
      simp only [activatePatched, same, assembled, warnFallbacks_recording, List.append_nil]
    · rcases answered : host.activate (u.warnFallbacks name applied) m patched with
        ⟨answer, after⟩
      have asked := Host.recorded_activate requests answered
      cases answer with
      | error e =>
        refine ⟨.error (.host e), after, [.activate m false],
          by simp only [activatePatched, loaded, assembled, answered], ?_, .inr rfl⟩
        simp only [activatePatched, same, assembled, warnFallbacks_recording, asked]
        rfl
      | ok _ =>
        refine ⟨.ok ⟨m, name, body, patched, applied⟩, after, [.activate m true],
          by simp only [activatePatched, loaded, assembled, answered], ?_, rfl⟩
        simp only [activatePatched, same, assembled, warnFallbacks_recording, asked]
        rfl

theorem install_recorded (host : Host σ) (w : World σ) (requests : List Request) (m : MethodId) :
    ∃ result after more, w.install host m = (result, after) ∧
      (w.recording requests).install host.recorded m =
        (result, after.recording (requests ++ more)) ∧ Asks m more result := by
  have same : ∀ k, (w.recording requests).slot host.recorded k = w.slot host k := fun _ => rfl
  cases known : w.slot host m with
  | error e =>
    refine ⟨.error e, w, [], by simp only [install, known], ?_, .inl rfl⟩
    simp only [install, same, known, List.append_nil]
  | ok slot =>
    cases state : slot.state with
    | installed handle =>
      refine ⟨.ok ⟨handle, false⟩, w, [], by simp only [install, known, state], ?_, rfl⟩
      simp only [install, same, known, state, List.append_nil]
    | installing | uninstalling handle =>
      refine ⟨.error (.busy slot.name), w, [], by simp only [install, known, state], ?_, .inl rfl⟩
      simp only [install, same, known, state, List.append_nil]
    | unpatched =>
      obtain ⟨result, after, more, done, recorded, asks⟩ := activatePatched_recorded host
        (w.withRegistry (w.registry.startInstall m)) requests m slot.name slot.points
      have started : (w.recording requests).withRegistry
          ((w.recording requests).registry.startInstall m) =
            (w.withRegistry (w.registry.startInstall m)).recording requests := rfl
      cases result with
      | error e =>
        refine ⟨.error e, (after.setState m .unpatched).logged .error
            ("Failed to install patch for " ++ slot.name ++ ": " ++ e.message), more,
          by simp only [install, known, state, done], ?_, asks⟩
        simp only [install, same, known, state, started, recorded]
        rfl
      | ok handle =>
        refine ⟨.ok ⟨handle, true⟩, after.setState m (.installed handle), more,
          by simp only [install, known, state, done], ?_, asks⟩
        simp only [install, same, known, state, started, recorded]
        rfl

theorem uninstall_recording (host : Host σ) (w : World σ) (requests : List Request)
    (m : MethodId) : (w.recording requests).uninstall host.recorded m = ((w.uninstall host m).1,
      (w.uninstall host m).2.recording (requests ++ Request.forResult m (w.uninstall host m).1)) := by
  have same : (w.recording requests).slot host.recorded m = w.slot host m := rfl
  cases known : w.slot host m with
  | error e =>
    have unasked : Request.forResult m (.error e) = [] := by
      unfold World.slot at known
      split at known <;> cases known
      rfl
    simp only [uninstall, same, known, unasked, List.append_nil]
  | ok slot =>
    cases state : slot.state with
    | unpatched | installing | uninstalling handle =>
      simp only [uninstall, same, known, state, Request.forResult, List.append_nil]
    | installed handle =>
      rcases answered : host.restore (w.setState m (.uninstalling handle)) m handle.saved with
        ⟨answer, after⟩
      have asked : host.recorded.restore
          ((w.recording requests).setState m (.uninstalling handle)) m handle.saved = _ :=
        Host.recorded_restore requests answered
      cases answer with
      | error e =>
        simp only [uninstall, same, known, state, answered, asked]
        rfl
      | ok _ =>
        simp only [uninstall, same, known, state, answered, asked]
        rfl

theorem Installs.recorded (atomic : host.Atomic entry running)
    (installs : Installs host w ms outcomes u) (requests : List Request) :
    Installs host.recorded (w.recording requests) ms outcomes
      (u.recording (requests ++ (newMethods outcomes).map (.activate · true))) := by
  induction installs generalizing requests with
  | none w =>
    rw [newMethods, List.filter_nil, List.map_nil, List.map_nil, List.append_nil]
    exact .none _
  | @more w u v m ms o outcomes installed rest ih =>
    obtain ⟨result, after, more, done, recorded, asks⟩ := install_recorded host w requests m
    rw [installed] at done
    obtain ⟨rfl, rfl⟩ := Prod.mk.inj done
    have more_new : more ++ (newMethods outcomes).map (.activate · true) =
        (newMethods (o :: outcomes)).map (.activate · true) := by
      obtain ⟨-, -, ⟨old, -⟩ | ⟨new, newly⟩⟩ := install_settles atomic installed
      · simp only [Asks, old] at asks
        simp [newMethods, old, asks]
      · simp only [Asks, new, if_true] at asks
        simp [newMethods, new, asks, newly.placed.method]
    rw [← more_new, ← List.append_assoc]
    exact .more recorded (ih _)

theorem TakesBack.recorded (back : TakesBack host w ms u) (requests : List Request) :
    TakesBack host.recorded (w.recording requests) ms
      (u.recording (requests ++ ms.map (.restore · true))) := by
  induction back generalizing requests with
  | none w =>
    rw [List.map_nil, List.append_nil]
    exact .none _
  | @more w u v m ms restored rest ih =>
    have recorded := uninstall_recording host w requests m
    rw [restored] at recorded
    have shift : requests ++ (m :: ms).map (.restore · true) =
        requests ++ [.restore m true] ++ ms.map (.restore · true) := by simp
    rw [shift]
    exact .more recorded (ih _)

theorem rollBack_recorded (atomic : host.Atomic entry running) (distinct : ms.Nodup)
    (newly : ∀ k ∈ ms, ∃ handle, Newly host entry running w u k handle) (failure : PatchError)
    (requests : List Request) :
    ∃ taken rest e after, ms = taken ++ rest ∧ u.rollBack host failure ms = (e, after) ∧
      (u.recording requests).rollBack host.recorded failure ms =
        (e, after.recording (requests ++ taken.map (.restore · true) ++
          rest.head?.toList.map (.restore · false))) ∧
      (∀ k ∈ taken, after.view entry running k = w.view entry running k) ∧
      ∀ k ∈ rest, ∃ handle, Newly host entry running w after k handle := by
  obtain ⟨taken, rest, v, rfl, takes, -, before, stay, outcome⟩ :=
    takesBack_new atomic distinct newly
  have recorded := takes.recorded requests
  rcases outcome with rfl | ⟨m, skipped, handle, e, after, name, rfl, failed, same, -, refuses⟩
  · refine ⟨taken, [], failure, v, rfl, ?_, ?_, before, stay⟩
    · rw [List.append_nil, takes.rollBack]
    · rw [List.append_nil, recorded.rollBack]
      simp
  · have asked := uninstall_recording host v (requests ++ taken.map (.restore · true)) m
    obtain ⟨_, _, refusal, -, -, rfl⟩ := refuses
    rw [failed] at asked
    refine ⟨taken, m :: skipped, _, after, rfl, takes.rollBack_failing failed failure skipped,
      recorded.rollBack_failing asked failure skipped, fun k member => ?_, fun k member => ?_⟩
    · rw [(same k).view, before k member]
    · obtain ⟨handle, here⟩ := stay k member
      exact ⟨handle, here.congr .refl (same k)⟩

/-! ### A failed installation of all methods -/

theorem installAll_failing (atomic : host.Atomic entry running) {e : PatchError}
    (distinct : w.registry.methods.Nodup) (failed : w.installAll host = (.error e, after)) :
    ∃ new failing taken rest, (w.recording []).installAll host.recorded =
        (.error e, after.recording (Request.ofFailure new failing taken rest)) ∧
      new.reverse = taken ++ rest ∧ new.Nodup ∧
      (∀ k ∈ new, w.registry.state? k = some .unpatched) ∧
      (∀ k ∈ taken, after.view entry running k = w.view entry running k) ∧
      ∀ k ∈ rest, ∃ handle, Newly host entry running w after k handle := by
  rcases installs_cases host w w.registry.methods with ⟨outcomes, u, installs⟩ |
    ⟨front, m, back, outcomes, u, failure, v, whole, installs, refused⟩
  · rw [installAll, installs.installEach] at failed
    cases failed
  rw [whole] at distinct
  obtain ⟨-, distinctNew, newly, -⟩ := installs.failing_settles atomic distinct refused
  have installsRecorded := installs.recorded atomic []
  rw [List.nil_append] at installsRecorded
  obtain ⟨result, v', asked, tried, recorded, asks⟩ := install_recorded host u
    ((newMethods outcomes).map (.activate · true)) m
  rw [refused] at tried
  obtain ⟨rfl, rfl⟩ := Prod.mk.inj tried
  obtain ⟨failing, rfl⟩ :
      ∃ failing : Option MethodId, asked = failing.toList.map (.activate · false) := by
    rcases asks with rfl | rfl
    · exact ⟨none, rfl⟩
    · exact ⟨some m, rfl⟩
  have rolled := installs.installEach_failing refused [] back rfl
  have rolledRecorded := installsRecorded.installEach_failing recorded [] back rfl
  rw [List.reverse_nil, List.nil_append] at rolled rolledRecorded
  generalize newMethods outcomes = new at *
  obtain ⟨taken, rest, e', x, parts, ends, endsRecorded, before, stay⟩ := rollBack_recorded atomic
    (List.nodup_reverse.mpr distinctNew) (fun k member => newly k (List.mem_reverse.mp member))
    failure (new.map (.activate · true) ++ failing.toList.map (.activate · false))
  rw [installAll, whole, rolled, ends] at failed
  cases failed
  refine ⟨new, failing, taken, rest, ?_, parts, distinctNew, fun k member => ?_, before, stay⟩
  · simp only [installAll, registry_recording, whole, rolledRecorded, rollingBack_recording,
      endsRecorded, Request.ofFailure]
  · obtain ⟨handle, here⟩ := newly k member
    exact here.before

/-- The worlds that calls of a new registry lead to. In between the host may change in any way. -/
inductive Reached (host : Host σ) (strict : Bool) : World σ → Prop
  | new (start : σ) : Reached host strict ⟨start, .empty strict, []⟩
  | call {w : World σ} (c : Call) : Reached host strict w → Reached host strict (c.performOn host w)
  | other {w : World σ} (state : σ) :
      Reached host strict w → Reached host strict { w with host := state }

theorem Reached.distinct {strict : Bool} (atomic : host.Atomic entry running)
    (reached : Reached host strict w) : w.registry.methods.Nodup := by
  induction reached with
  | new start => exact List.nodup_nil
  | call c _ ih => exact c.performOn_distinct atomic ih
  | other state _ ih => exact ih

/-- Every method that went in was asked back, and is still in only if that was refused. -/
def RolledBack (requests : List Request) (after : World σ) : Prop :=
  ∀ k, .activate k true ∈ requests → (∃ granted, .restore k granted ∈ requests) ∧
    ((∃ handle, after.registry.state? k = some (.installed handle)) → .restore k false ∈ requests)

theorem head_of_reverse {new taken skipped : List MethodId} (distinct : new.Nodup)
    (parts : new.reverse = taken ++ m :: skipped) : new.head? = some m ↔ skipped = [] := by
  rw [← List.nodup_reverse, parts] at distinct
  rw [← List.getLast?_reverse, parts]
  rcases List.eq_nil_or_concat skipped with rfl | ⟨front, last, rfl⟩
  · simp
  · have apart : m ≠ last := by
      rintro rfl
      simp [List.nodup_append'] at distinct
    have shift : taken ++ m :: (front ++ [last]) = (taken ++ m :: front) ++ [last] := by simp
    rw [List.concat_eq_append, shift, List.getLast?_concat]
    simp [apart.symm]

/-- After a failed installation of all methods each new one is restored or still in, and the ones
that were asked back are the last ones to go in. These are all of them exactly if the host refused
none but the very first. -/
theorem rollBack_complete_iff {strict : Bool} (atomic : host.Atomic entry running)
    (reached : Reached host strict w) {e : PatchError}
    (failed : w.installAll host = (.error e, after)) :
    ∃ requests, (w.recording []).installAll host.recorded = (.error e, after.recording requests) ∧
      requests.filterMap Request.restored? <+: (requests.filterMap Request.placed?).reverse ∧
      (∀ k, .activate k true ∈ requests → w.registry.state? k = some .unpatched ∧
        (.restore k true ∈ requests ∧ after.view entry running k = w.view entry running k ∨
          .restore k true ∉ requests ∧ ∃ handle, Newly host entry running w after k handle)) ∧
      (RolledBack requests after ↔ ∀ k, .restore k false ∈ requests →
        (requests.filterMap Request.placed?).head? = some k) := by
  obtain ⟨new, failing, taken, rest, recorded, parts, distinct, unpatched, before, stay⟩ :=
    installAll_failing atomic (reached.distinct atomic) failed
  refine ⟨Request.ofFailure new failing taken rest, recorded, ?_⟩
  -- from here on the requests are `new`, `taken` and the head of `rest`
  simp only [RolledBack, Request.placed_of_failure, Request.restored_of_failure,
    Request.activated_of_failure, Request.granted_of_failure, Request.refused_of_failure]
  have mem_new : ∀ k, k ∈ new ↔ k ∈ taken ∨ k ∈ rest := fun k => by
    rw [← List.mem_reverse, parts, List.mem_append]
  have apart : ∀ k ∈ rest, k ∉ taken := by
    intro k member early
    rw [← List.nodup_reverse, parts] at distinct
    exact (List.nodup_append'.mp distinct).2.2 early member
  refine ⟨?_, fun k member => ?_, fun complete k refused => ?_, fun first k member => ?_⟩
  · rw [parts, List.prefix_append_right_inj]
    cases rest with
    | nil => exact List.nil_prefix
    | cons m skipped => exact List.prefix_append [m] skipped
  · refine ⟨unpatched k member, ?_⟩
    rcases (mem_new k).mp member with back | still
    · exact .inl ⟨back, before k back⟩
    · exact .inr ⟨apart k still, stay k still⟩
  · obtain ⟨skipped, rfl⟩ := List.head?_eq_some_iff.mp refused
    refine (head_of_reverse distinct parts).mpr (List.eq_nil_iff_forall_not_mem.mpr ?_)
    intro l member
    have later : l ∈ k :: skipped := List.mem_cons_of_mem k member
    -- `l` stands behind the refused method, so nothing was asked of it
    obtain ⟨granted, asked⟩ := (complete l ((mem_new l).mpr (.inr later))).1
    cases granted with
    | true => exact apart l later (Request.granted_of_failure.mp asked)
    | false =>
      obtain rfl := Option.some.inj (Request.refused_of_failure.mp asked)
      rw [← List.nodup_reverse, parts] at distinct
      exact (List.nodup_cons.mp (List.nodup_append'.mp distinct).2.1).1 member
  · rcases (mem_new k).mp member with back | still
    · refine ⟨⟨true, Request.granted_of_failure.mpr back⟩, fun ⟨handle, installed⟩ => ?_⟩
      have state : after.registry.state? k = w.registry.state? k := (Prod.mk.inj (before k back)).1
      rw [installed, unpatched k member] at state
      cases state
    · obtain ⟨m, skipped, rfl⟩ := List.exists_cons_of_ne_nil (List.ne_nil_of_mem still)
      -- the refused method is the very first, so it is the only one that is left
      have last := first m rfl
      rw [head_of_reverse distinct parts] at last
      subst last
      rw [List.mem_singleton.mp still]
      exact ⟨⟨false, Request.refused_of_failure.mpr rfl⟩, fun _ => rfl⟩

end World

/-- The host in memory, except that one method is never restored. -/
def Host.keeping (m : MethodId) : Host Memory :=
  { Host.memory with
    restore := fun w k body =>
      if k = m then (.error (.activationRejected (Host.memory.describe w.host k) "in use"), w)
      else Host.memory.restore w k body }

theorem Host.keeping_atomic (m : MethodId) :
    (Host.keeping m).Atomic Memory.method? (Option.map MemoryMethod.active) := by
  have atomic := Memory.atomic
  refine ⟨atomic.load_registry, atomic.load_entry, atomic.load_running, atomic.activate,
    fun w k body => ?_⟩
  by_cases kept : k = m
  · simp only [keeping, if_pos kept]
    refine ⟨rfl, fun _ _ => rfl, fun impossible => ?_, fun _ _ => rfl⟩
    cases impossible
  · simp only [keeping, if_neg kept]
    exact atomic.restore w k body

namespace World

/-- Two methods that can be patched and one that cannot, all of them registered. -/
def crowded (host : Host Memory) : World Memory :=
  ["first", "second", "latched"].foldl
    (fun w name => Call.performOn host w (.register (guardPatch name)))
    ⟨⟨[⟨"first", guardedBody, guardedBody, 0, false⟩,
      ⟨"second", guardedBody, guardedBody, 0, false⟩,
      ⟨"latched", guardedBody, guardedBody, 0, true⟩]⟩, .empty true, []⟩

theorem crowded_reached (host : Host Memory) : Reached host true (crowded host) := by
  simp only [crowded, List.foldl_cons, List.foldl_nil]
  exact .call _ (.call _ (.call _ (.new _)))

/-- A refusal for the second method leaves the first one installed, which is never asked back. -/
theorem refused_second_skips_first : ∃ w e after,
    (Host.keeping ⟨2⟩).Atomic Memory.method? (Option.map MemoryMethod.active) ∧
    Reached (.keeping ⟨2⟩) true w ∧ w.installAll (.keeping ⟨2⟩) = (.error e, after) ∧
    (w.recording []).installAll (Host.keeping ⟨2⟩).recorded = (.error e, after.recording
      [.activate ⟨1⟩ true, .activate ⟨2⟩ true, .activate ⟨3⟩ false, .restore ⟨2⟩ false]) ∧
    w.registry.state? ⟨1⟩ = some .unpatched ∧
    (∃ handle, after.registry.state? ⟨1⟩ = some (.installed handle)) ∧
    ¬ RolledBack [.activate ⟨1⟩ true, .activate ⟨2⟩ true, .activate ⟨3⟩ false, .restore ⟨2⟩ false]
      after := by
  refine ⟨crowded (.keeping ⟨2⟩), _, _, Host.keeping_atomic ⟨2⟩, crowded_reached _, rfl, rfl, rfl,
    ⟨_, rfl⟩, fun complete => ?_⟩
  obtain ⟨granted, asked⟩ := (complete ⟨1⟩ List.mem_cons_self).1
  simp at asked

/-- A refusal for the first method is met last, when all others are restored. -/
theorem refused_first_is_last : ∃ w e after requests,
    Reached (.keeping ⟨1⟩) true w ∧ w.installAll (.keeping ⟨1⟩) = (.error e, after) ∧
    (w.recording []).installAll (Host.keeping ⟨1⟩).recorded =
      (.error e, after.recording requests) ∧
    (∃ handle, after.registry.state? ⟨1⟩ = some (.installed handle)) ∧
    RolledBack requests after := by
  have reached := crowded_reached (.keeping ⟨1⟩)
  obtain ⟨e, after, failed, still⟩ : ∃ e after,
      (crowded (.keeping ⟨1⟩)).installAll (.keeping ⟨1⟩) = (.error e, after) ∧
      ∃ handle, after.registry.state? ⟨1⟩ = some (.installed handle) := ⟨_, _, rfl, _, rfl⟩
  obtain ⟨requests, recorded, -, -, complete⟩ :=
    rollBack_complete_iff (Host.keeping_atomic ⟨1⟩) reached failed
  have asked : requests = [.activate ⟨1⟩ true, .activate ⟨2⟩ true, .activate ⟨3⟩ false,
      .restore ⟨2⟩ true, .restore ⟨1⟩ false] := by
    have kept := congrArg (fun run => run.2.host.2) recorded
    exact kept.symm.trans rfl
  refine ⟨_, e, after, requests, reached, failed, recorded, still, complete.mpr fun k refused => ?_⟩
  subst asked
  have first : k = ⟨1⟩ := by simpa using refused
  rw [first]
  rfl

end World

end Interpose
