import Interpose.Registry.Error

/-!
The patched body of a method: all its extension points applied to a copy of the body, one after
the other. The result keeps the stack discipline if the body does.
-/

set_option autoImplicit false
set_option relaxedAutoImplicit false

namespace Interpose.Assembly

/-- Applies points in order, up to the first that cannot be applied. The reports are those of the
points that went in. -/
def spliceAll (s : Stream) : List Point → List SpliceReport × Except SpliceError Stream
  | [] => ([], .ok s)
  | point :: rest =>
    match point.apply s with
    | (.error e, _) => ([], .error e)
    | (.ok report, s) =>
      let (reports, result) := spliceAll s rest
      (report :: reports, result)

/-- Every branch of a patched stream has a target, and its stack discipline is no worse than that of
the stream before. -/
def check (method : String) (before patched : Stream) : Except PatchError Unit :=
  match patched.validate with
  | .error e => .error (.stream method e)
  | .ok () =>
    match before.checkStack, patched.checkStack with
    | .ok (), .error e => .error (.unbalanced method e)
    | _, _ => .ok ()

/-- The patched body of a method, with the reports of the points that went in. -/
def assemble (method : String) (points : List Point) (body : Body) :
    List SpliceReport × Except PatchError Body :=
  match Stream.ofBody body with
  | .error e => ([], .error (.stream method e))
  | .ok s =>
    match spliceAll s points with
    | (reports, .error e) => (reports, .error (.splice method e))
    | (reports, .ok patched) =>
      (reports, (check method s patched).map fun () => patched.toBody)

end Interpose.Assembly
