import Interpose.Proofs.Dispatch.Enrolled

/-!
The calls that patched bodies make. A template calls its callback once, so every splice adds one
call to the calls of the body. An installed method therefore calls each of its points once, with the
signature that building the point gave it, and the dispatch table answers that call with the
callback the point was registered with.
-/

set_option autoImplicit false
set_option relaxedAutoImplicit false

namespace Interpose

/-- The method that an instruction calls, if that is one for the dispatch table. -/
def Instruction.dispatched? (insn : Instruction) : Option MethodRef :=
  if insn.opcode = .call then insn.method?.filter (·.owner.name = dispatchOwner) else none

def dispatches (code : List Instruction) : List MethodRef :=
  code.filterMap Instruction.dispatched?

/-- No instruction that the template emits as it stands is a call for the dispatch table. -/
def Template.Quiet (t : Template) : Prop :=
  ∀ insn, .emit insn ∈ t → insn.dispatched? = none

@[simp] theorem dispatches_append (code more : List Instruction) :
    dispatches (code ++ more) = dispatches code ++ dispatches more :=
  List.filterMap_append

/-! ### Templates -/

theorem Opcode.pure_load_not_call {op : Opcode} : op.isPureLoad = true → op ≠ .call := by
  cases op <;> decide

theorem Pushes.calls_nothing {code : List Instruction} (pushes : Pushes code) :
    dispatches code = [] := by
  cases pushes with
  | load pure => simp [dispatches, Instruction.dispatched?, Opcode.pure_load_not_call pure]
  | field field => simp [dispatches, Instruction.dispatched?, field, Instruction.ldarg]

namespace Template

variable {loads : Loads} {name : Symbol → Label} {t : Template} {captures : Nat} {maySkip : Bool}

theorem dispatches_element (simple : loads.Simple captures)
    (owner : loads.callback.owner.name = dispatchOwner) {op : TemplateOp}
    (captured : ∀ index, op = .loadCapture index → index < captures)
    (quiet : ∀ insn, op = .emit insn → insn.dispatched? = none) :
    dispatches (op.code loads name) = if op = .invokeCallback then [loads.callback] else [] := by
  cases op with
  | invokeCallback =>
    have calls : (Instruction.call loads.callback).dispatched? = some loads.callback := by
      simp [Instruction.dispatched?, Instruction.call, Instruction.method?, owner]
    simp [TemplateOp.code, dispatches, calls]
  | loadActive => exact simple.active.calls_nothing
  | loadCapture index =>
    obtain ⟨code, found, pushes⟩ := simple.captured index (captured index rfl)
    simpa [TemplateOp.code, found] using pushes.calls_nothing
  | emit insn => simp [TemplateOp.code, dispatches, quiet insn rfl]
  | typeTest | branch _ | branchTrue _ | branchFalse _ | mark _ => rfl

theorem dispatches_code (simple : loads.Simple captures)
    (owner : loads.callback.owner.name = dispatchOwner)
    (captured : ∀ index, .loadCapture index ∈ t → index < captures) (quiet : t.Quiet) :
    dispatches (t.code loads name) = List.replicate (t.count .invokeCallback) loads.callback := by
  induction t with
  | nil => rfl
  | cons op t ih =>
    have first : dispatches (op.code loads name) = _ := dispatches_element simple owner
      (fun index same => captured index (same ▸ List.mem_cons_self))
      (fun insn same => quiet insn (same ▸ List.mem_cons_self))
    have rest := ih (fun index member => captured index (List.mem_cons_of_mem _ member))
      fun insn member => quiet insn (List.mem_cons_of_mem _ member)
    rw [code_cons, dispatches_append, first, rest, List.count_cons]
    by_cases calls : op = .invokeCallback
    · simp [calls, List.replicate_succ]
    · simp [calls]

end Template

theorem Template.tested_quiet (mode : SpliceMode) (captures : Nat) :
    (tested mode captures).Quiet := by
  intro insn member
  cases mode <;> simp [tested, handler] at member

/-! ### Points -/

/-- A point as it is built from a draft, with captures for which its callback has parameters. -/
structure Point.Callable (p : Point) : Prop where
  built : ∃ d : PointDraft, d.build = .ok p
  few : p.captures.length ≤ 65534
  quiet : p.template.Quiet

theorem PointDraft.callable_of_default {d : PointDraft} {p : Point} (built : d.build = .ok p)
    (default : d.template = none) (few : d.captures.length ≤ 65534) : p.Callable := by
  refine ⟨⟨d, built⟩, ?_, ?_⟩ <;> obtain ⟨-, -, rfl⟩ := build_ok built
  · exact few
  · rw [default_template default]
    exact Template.tested_quiet d.mode d.captures.length

namespace Point

variable {p : Point} {s t : Stream} {site : Site} {r : SpliceReport} {name : Symbol → Label}

def arity (p : Point) : Nat :=
  match p.mode with
  | .consume => 1
  | .augment => 1 + p.captures.length

theorem Callable.callback (callable : p.Callable) :
    p.callback.owner.name = dispatchOwner ∧ p.callback.name = p.name ∧
      p.callback.params.toNat = p.arity ∧ p.callback.hasThis = false ∧
      (p.callback.returns = true ↔ p.mode = .consume) := by
  obtain ⟨⟨d, built⟩, few, -⟩ := callable
  obtain ⟨-, -, rfl⟩ := PointDraft.build_ok built
  refine ⟨rfl, rfl, ?_, rfl, decide_eq_true_iff⟩
  simp only [PointDraft.callback, arity] at few ⊢
  cases d.mode with
  | consume => rfl
  | augment => exact UInt16.toNat_ofNat_of_lt (by simp only [UInt16.size]; omega)

theorem Spliced.calls (callable : p.Callable) (found : p.site s = .ok site)
    (spliced : p.Spliced s site r t name) :
    (dispatches t.code).Perm (p.callback :: dispatches s.code) := by
  obtain ⟨d, built⟩ := callable.built
  have sound := PointDraft.build_sound built
  have one : dispatches (p.template.code (p.loads site) name) = [p.callback] := by
    rw [Template.dispatches_code (site_simple found) callable.callback.1 sound.captured
      callable.quiet, sound.called]
    rfl
  obtain ⟨before, onward, whole, -, cells⟩ := spliced.cells
  simp only [Stream.code, whole, cells, List.map_append, Stream.code_numbered, dispatches_append,
    one, List.append_assoc, List.singleton_append]
  exact List.perm_middle

end Point

theorem Assembly.assemble_calls {method : String} {body patched : Body} {points : List Point}
    {reports : List SpliceReport} (callable : ∀ p ∈ points, p.Callable)
    (assembled : assemble method points body = (reports, .ok patched)) :
    (dispatches patched.code).Perm (points.map (·.callback) ++ dispatches body.code) := by
  obtain ⟨s, t, loaded, spliced, rfl⟩ := assemble_ok assembled
  have start : s.code = body.code := congrArg Body.code (Stream.ofBody_toBody loaded)
  rw [← start]
  change (dispatches t.code).Perm _
  -- The calls stand in the order of the code, not in that of the points.
  refine spliceAll_induction (P := fun done u =>
      (dispatches u.code).Perm (done.map (·.callback) ++ dispatches s.code))
    (Stream.ofBody_wellFormed loaded) .rfl ?_ spliced
  intro done p r u v site name member before found one
  have more := (one.calls (callable p member) found).trans (before.cons p.callback)
  rw [List.map_append, List.append_assoc]
  exact more.trans List.perm_middle.symm

theorem filter_callback {points : List Point} {p : Point}
    (distinct : (points.map (·.name)).Nodup) (named : ∀ q ∈ points, q.callback.name = q.name)
    (member : p ∈ points) :
    (points.map (·.callback)).filter (·.name = p.name) = [p.callback] := by
  obtain ⟨front, back, rfl⟩ := List.append_of_mem member
  rw [List.map_append, List.map_cons] at distinct
  obtain ⟨-, later, apart⟩ := List.nodup_append'.mp distinct
  have early : ∀ q ∈ front, q.callback.name ≠ p.name := by
    intro q inside same
    rw [named q (List.mem_append_left _ inside)] at same
    exact apart (List.mem_map_of_mem inside) (same ▸ List.mem_cons_self)
  have late : ∀ q ∈ back, q.callback.name ≠ p.name := by
    intro q inside same
    rw [named q (List.mem_append_right _ (List.mem_cons_of_mem _ inside))] at same
    exact (List.nodup_cons.mp later).1 (same ▸ List.mem_map_of_mem inside)
  have here : p.callback.name = p.name := named p member
  have none : ∀ {qs : List Point}, (∀ q ∈ qs, q.callback.name ≠ p.name) →
      (qs.map (·.callback)).filter (·.name = p.name) = [] := by
    intro qs other
    simpa [List.filter_eq_nil_iff] using other
  rw [List.map_append, List.map_cons, List.filter_append, List.filter_cons, none early, none late]
  simp [here]

/-! ### The dispatch table -/

namespace Dispatcher

theorem invoke_ok {d : Dispatcher} {ref : MethodRef} {callback : Callback} {active : Value}
    {context : List Value} (owner : ref.owner.name = dispatchOwner)
    (found : d.find? ref.name = some callback) (arity : 1 + context.length = ref.params.toNat) :
    d.invoke ref (active :: context) = .ok (run callback active context) := by
  have length : (active :: context).length = ref.params.toNat := by
    rw [List.length_cons, Nat.add_comm, arity]
  simp [invoke, owner, found, length]

theorem run_handled_iff {callback : Callback} {active : Value} {context : List Value} :
    (∃ value, run callback active context = .handled value) ↔ callback.mode = .consume := by
  cases callback <;> simp [run, Callback.mode]

end Dispatcher

namespace World

variable {σ : Type} {host : Host σ} {strict : Bool} {w : World σ} {es : List Enrollment}
  {m : MethodId} {handle : Handle}

/-- The calls that the patched body of an installed method makes for the dispatch table are those of
its points. Each of them is made once, with as many arguments as the point hands over, and is
answered by the callback that the point was registered with. It takes and leaves on the stack what
the analysis of the body counts for it. -/
theorem installed_calls_answered (enrolled : Enrolled host strict es w)
    (installed : w.registry.state? m = some (.installed handle))
    (callable : ∀ p ∈ w.registry.pointsOf m, p.Callable)
    (original : dispatches handle.saved.code = []) :
    w.registry.pointsOf m = (es.filter (·.method = m)).map (·.point) ∧
      ∀ e ∈ es, e.method = m → ∃ ref,
        (dispatches handle.patched.code).filter (·.name = e.point.name) = [ref] ∧
        ref.params.toNat = e.point.arity ∧
        (Instruction.call ref).stackEffect = ⟨ref.params.toNat, ref.returns.toNat⟩ ∧
        ∀ active context, 1 + context.length = ref.params.toNat →
          ∃ reply, w.registry.dispatcher.invoke ref (active :: context) = .ok reply ∧
            (∀ handles, e.callback = .consume handles → reply = .handled (handles active)) ∧
            (∀ tag, e.callback = .augment tag → reply = .received ⟨tag, active, context⟩) ∧
            ((∃ value, reply = .handled value) ↔ ref.returns = true) := by
  have holds := enrolled.holds
  refine ⟨holds.points m, fun e member here => ?_⟩
  obtain ⟨slot, found, state⟩ := Option.map_eq_some_iff.mp installed
  rw [Registry.pointsOf_find found] at callable
  have among : e.point ∈ slot.points := by
    rw [← Registry.pointsOf_find found, holds.points m]
    exact List.mem_map_of_mem (List.mem_filter.mpr ⟨member, by simpa using here⟩)
  have distinct : (slot.points.map (·.name)).Nodup := by
    rw [← Registry.pointsOf_find found, holds.points m, List.map_map]
    exact holds.names.sublist (List.filter_sublist.map _)
  have calls := Assembly.assemble_calls callable (enrolled.assembled m slot handle found state)
  rw [original, List.append_nil] at calls
  obtain ⟨owner, name, params, static, returns⟩ := (callable e.point among).callback
  refine ⟨e.point.callback, ?_, params, ?_, fun active context arity => ?_⟩
  · have one := filter_callback distinct (fun q inside => (callable q inside).callback.2.1) among
    have filtered := calls.filter (·.name = e.point.name)
    rw [one] at filtered
    exact List.perm_singleton.mp filtered
  · have pops : e.point.callback.callPops = e.point.callback.params := by
      rw [MethodRef.callPops, static]
      exact UInt16.add_zero _
    simp [Instruction.stackEffect, Instruction.call, Instruction.method?, pops]
  · refine ⟨_, Dispatcher.invoke_ok owner (name ▸ holds.find member) arity, ?_, ?_, ?_⟩
    · rintro handles consumes
      rw [consumes, Dispatcher.run]
    · rintro tag augments
      rw [augments, Dispatcher.run]
    · rw [Dispatcher.run_handled_iff, holds.modes e member, returns]

/-- A point behind the `nop` of a method that hands over the argument which the method tests. -/
def tracePoint : PointDraft :=
  { PointDraft.make .augment "trace" ⟨"Capable"⟩ ⟨⟨"nop", [⟨0, .opcode .nop⟩]⟩, []⟩ with
    captures := [⟨"tested", .backward, .opcode .ldarg, 0⟩] }

/-- A patch with a point that skips where the active object is a true one, and one that watches. -/
def tracePatch (p q : Point) : MethodPatch :=
  ⟨"guarded", [(p, .consume Value.isTruthy), (q, .augment "tracer")]⟩

theorem traced_call_answered : ∃ es w handle guard trace, Enrolled .memory true es w ∧
    w.registry.state? ⟨1⟩ = some (.installed handle) ∧
    (dispatches handle.patched.code).filter (·.name = "guard") = [guard] ∧
    (dispatches handle.patched.code).filter (·.name = "trace") = [trace] ∧
    (∀ active, w.registry.dispatcher.invoke guard [active] = .ok (.handled active.isTruthy)) ∧
    w.registry.dispatcher.invoke trace [.null, .bool true] =
      .ok (.received ⟨"tracer", .null, [.bool true]⟩) := by
  obtain ⟨p, builtP⟩ : ∃ p, guardPoint.build = .ok p := ⟨_, rfl⟩
  obtain ⟨q, builtQ⟩ : ∃ q, tracePoint.build = .ok q := ⟨_, rfl⟩
  have registered : Enrolled .memory true _ _ :=
    .call (c := .register (tracePatch p q)) (.new guardedHost) rfl
  obtain ⟨new, enrolls⟩ := Call.enrolls Memory.atomic.keepsRegistry.operates
    ((Call.register (tracePatch p q)).performOn .memory ⟨guardedHost, .empty true, []⟩)
    (.install ⟨1⟩)
  have run := registered.call enrolls
  generalize after : (Call.install ⟨1⟩).performOn .memory
    ((Call.register (tracePatch p q)).performOn .memory ⟨guardedHost, .empty true, []⟩) = w at run
  obtain ⟨handle, installed, points, original⟩ : ∃ handle,
      w.registry.state? ⟨1⟩ = some (.installed handle) ∧ w.registry.pointsOf ⟨1⟩ = [p, q] ∧
      dispatches handle.saved.code = [] := by
    cases builtP
    cases builtQ
    cases after
    exact ⟨_, rfl, rfl, rfl⟩
  have callable : ∀ p ∈ w.registry.pointsOf ⟨1⟩, p.Callable := by
    rw [points]
    intro o member
    rcases List.mem_pair.mp member with rfl | rfl
    · exact PointDraft.callable_of_default builtP rfl (by decide)
    · exact PointDraft.callable_of_default builtQ rfl (by decide)
  obtain ⟨guarding, tracing⟩ :
      ⟨⟨1⟩, p, .consume Value.isTruthy⟩ ∈
          enrolledBy ⟨guardedHost, .empty true, []⟩ .memory (tracePatch p q) ∧
        ⟨⟨1⟩, q, .augment "tracer"⟩ ∈
          enrolledBy ⟨guardedHost, .empty true, []⟩ .memory (tracePatch p q) := by
    cases builtP
    cases builtQ
    exact ⟨List.mem_cons_self, List.mem_cons_of_mem _ List.mem_cons_self⟩
  obtain ⟨-, answers⟩ := installed_calls_answered run installed callable original
  obtain ⟨guard, oneGuard, arityGuard, -, guards⟩ :=
    answers _ (List.mem_append_left _ (List.mem_append_right _ guarding)) rfl
  obtain ⟨trace, oneTrace, arityTrace, -, traces⟩ :=
    answers _ (List.mem_append_left _ (List.mem_append_right _ tracing)) rfl
  obtain ⟨nameP, arityP⟩ : p.name = "guard" ∧ p.arity = 1 := by
    cases builtP
    exact ⟨rfl, rfl⟩
  obtain ⟨nameQ, arityQ⟩ : q.name = "trace" ∧ q.arity = 2 := by
    cases builtQ
    exact ⟨rfl, rfl⟩
  refine ⟨_, w, handle, guard, trace, run, installed, nameP ▸ oneGuard, nameQ ▸ oneTrace,
    fun active => ?_, ?_⟩
  · obtain ⟨reply, invoked, handled, -⟩ := guards active [] (arityGuard.trans arityP).symm
    rw [invoked, handled _ rfl]
  · obtain ⟨reply, invoked, -, received, -⟩ :=
      traces .null [.bool true] (arityTrace.trans arityQ).symm
    rw [invoked, received _ rfl]

end World

end Interpose
