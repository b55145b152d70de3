import AspectWeaving.Proofs.HousedFrames
import AspectWeaving.Proofs.QuietHooks

/-!
Frames that go along with others. Where one method of a module has a decorator around it, a frame of another body goes
along with a frame of the same body, and a frame of the woven one with a frame of the old one, which it houses
(`Frame.Mirrored`). So do frames under execution, one by one; at the bottom of those that go along there may be others,
and more may be to be done there with an outcome (`Paired`).
-/
namespace AspectWeaving

/-! ### Guises -/

/-- How a frame goes along with another one: in the same body, or in the body that a decorator has made of it. -/
inductive Guise where
  | same
  | woven (δ : Decor) (A : HookArguments)

namespace Guise

/-- How far the code of the body stands behind its place. -/
def shift : Guise → Nat
  | same => 0
  | woven δ _ => δ.weave.prologue.length

/-- Where control goes on instead of a return. -/
def exit : Guise → Option Handle
  | same => none
  | woven δ _ => some δ.weave.places.epilogue

end Guise

/-- A map knows none of the objects that hooks are called with. -/
structure HookArguments.Apart (A : HookArguments) (σ : HeapMap) : Prop where
  attr : A.attr ∉ σ
  method : A.method ∉ σ
  arguments : A.arguments ∉ σ

/-- The bodies are as a guise has them. -/
def Guise.Fits (decor? : Option Decor) (σ : HeapMap) (h : Heap) (f g : Frame) : Guise → Prop
  | same => g.activation.body = f.activation.body
  | woven δ A => decor? = some δ ∧ f.activation.body = δ.weave.old ∧ δ.Keeps A h g ∧ A.Apart σ

/-- What is to be done with the outcomes of two frames is known, or the same along a map. -/
def Frame.Ends (σ : HeapMap) (f g : Frame) : Option (List Pending × List Pending) → Prop
  | some (own, other) => f.pending = own ∧ g.pending = other
  | none => List.Forall₂ (Pending.Mapped σ) f.pending g.pending

/-- A frame goes along with another one. -/
structure Frame.Mirrored (decor? : Option Decor) (σ : HeapMap) (h : Heap) (ends? : Option (List Pending × List Pending)) (k : Guise)
    (f g : Frame) : Prop where
  housed : f.Housed σ k.shift k.exit g
  ends : f.Ends σ g ends?
  fits : k.Fits decor? σ h f g

/-- Frames go along with others, one by one. Below the last of them are further frames, and it is known what is to be done
    with its outcome. -/
inductive Paired (decor? : Option Decor) (σ : HeapMap) (h : Heap) (base : List Frame) (ends : List Pending × List Pending)
    (bottom : Guise) : List Frame → List Frame → Prop
  | last {f g : Frame} (mirrored : f.Mirrored decor? σ h (some ends) bottom g) : Paired decor? σ h base ends bottom [f] (g :: base)
  | above {f g : Frame} {fs gs : List Frame} (k : Guise) (mirrored : f.Mirrored decor? σ h none k g)
      (below : Paired decor? σ h base ends bottom fs gs) : Paired decor? σ h base ends bottom (f :: fs) (g :: gs)

section Frames

variable {decor? : Option Decor} {δ : Decor} {A : HookArguments} {σ τ : HeapMap} {h h' : Heap} {k : Guise}
  {ends? : Option (List Pending × List Pending)} {ends : List Pending × List Pending}
  {f g f' g' : Frame} {t t' : Machine} {base fs gs : List Frame} {bottom : Guise}

theorem HookArguments.Apart.shadows (apart : A.Apart σ) (keeps : δ.Keeps A t.heap g) (shadows : Machine.Shadows σ τ h t t') :
    A.Apart τ ∧ δ.Keeps A t'.heap g := by
  obtain ⟨attr, attr'⟩ := shadows.spares apart.attr keeps.attr
  obtain ⟨method, method'⟩ := shadows.spares apart.method keeps.method
  obtain ⟨arguments, arguments'⟩ := shadows.spares apart.arguments keeps.arguments
  exact ⟨⟨attr, method, arguments⟩, keeps.body, keeps.returnsValue, keeps.slots, keeps.result, attr', method', arguments'⟩

/-- Only the slots of the woven code matter. -/
theorem Decor.Keeps.congr (keeps : δ.Keeps A h g) (activation : g'.activation = g.activation)
    (size : g'.slots.size = g.slots.size) (slots : ∀ n, δ.weave.old.slots.size ≤ n → g'.slot n = g.slot n) : δ.Keeps A h g' where
  body := by rw [activation]; exact keeps.body
  returnsValue := by rw [activation]; exact keeps.returnsValue
  slots := ⟨size ▸ keeps.slots.size, (slots _ (Nat.le_refl _)).trans keeps.slots.method,
    (slots _ (Nat.le_add_right _ _)).trans keeps.slots.attr, (slots _ (Nat.le_add_right _ _)).trans keeps.slots.arguments⟩
  result void := (slots _ (Nat.le_add_right _ _)).trans (keeps.result void)
  attr := keeps.attr
  method := keeps.method
  arguments := keeps.arguments

theorem Guise.Fits.shadows (fits : k.Fits decor? σ t.heap f g) (shadows : Machine.Shadows σ τ h t t') :
    k.Fits decor? τ t'.heap f g := by
  cases k with
  | same => exact fits
  | woven δ A =>
    obtain ⟨known, old, keeps, apart⟩ := fits
    obtain ⟨apart, keeps⟩ := apart.shadows keeps shadows
    exact ⟨known, old, keeps, apart⟩

theorem Guise.Fits.congr (fits : k.Fits decor? σ h f g) (own : f'.activation = f.activation) (other : g'.activation = g.activation)
    (slots : g'.slots = g.slots) : k.Fits decor? σ h f' g' := by
  cases k with
  | same =>
    change g'.activation.body = f'.activation.body
    rw [own, other]
    exact fits
  | woven δ A =>
    obtain ⟨known, old, keeps, apart⟩ := fits
    refine ⟨known, by rw [own]; exact old, keeps.congr other (by rw [slots]) fun n _ => ?_, apart⟩
    unfold Frame.slot
    rw [slots]

theorem Guise.Fits.store (fits : k.Fits decor? σ h f g) {index : Nat}
    (old : ∀ δ A, k = .woven δ A → index < δ.weave.old.slots.size) (v w : Value) :
    k.Fits decor? σ h (f.store index v) (g.store index w) := by
  cases k with
  | same => exact fits
  | woven δ A =>
    have below := old δ A rfl
    obtain ⟨known, old, keeps, apart⟩ := fits
    exact ⟨known, old, keeps.congr rfl (by simp [Frame.store]) fun n behind =>
      Frame.slot_store_of_ne g (by omega) w, apart⟩

namespace Frame.Mirrored

theorem shadows (mirrored : f.Mirrored decor? σ t.heap ends? k g) (shadows : Machine.Shadows σ τ h t t') :
    f.Mirrored decor? τ t'.heap ends? k g where
  housed := mirrored.housed.mono shadows.grows
  ends := by
    cases ends? with
    | some ends => exact mirrored.ends
    | none => exact Pending.mapped_all_mono mirrored.ends shadows.grows
  fits := mirrored.fits.shadows shadows

/-- Control goes on elsewhere, with other values on the stacks. -/
theorem goes (mirrored : f.Mirrored decor? σ h ends? k g) (housed : f'.Housed σ k.shift k.exit g')
    (activation : f'.activation = f.activation) (pending : f'.pending = f.pending) (activation' : g'.activation = g.activation)
    (pending' : g'.pending = g.pending) (slots : g'.slots = g.slots) : f'.Mirrored decor? σ h ends? k g' where
  housed := housed
  ends := by
    unfold Frame.Ends
    rw [pending, pending']
    exact mirrored.ends
  fits := mirrored.fits.congr activation activation' slots

theorem withStack (mirrored : f.Mirrored decor? σ h ends? k g) {vs ws : List Value} (stack : List.Forall₂ (Value.Mapped σ) vs ws) :
    ({ f with stack := vs } : Frame).Mirrored decor? σ h ends? k { g with stack := ws } :=
  mirrored.goes (mirrored.housed.withStack stack) rfl rfl rfl rfl rfl

theorem receive (mirrored : f.Mirrored decor? σ h ends? k g) {v w : Value} (value : v.Mapped σ w) :
    (f.receive v).Mirrored decor? σ h ends? k (g.receive w) :=
  mirrored.goes (mirrored.housed.receive value) (f.beside_receive v).activation (f.beside_receive v).pending
    (g.beside_receive w).activation (g.beside_receive w).pending (by cases w <;> rfl)

theorem store (mirrored : f.Mirrored decor? σ h ends? k g) {index : Nat}
    (old : ∀ δ A, k = .woven δ A → index < δ.weave.old.slots.size) {v w : Value} (value : v.Mapped σ w) :
    (f.store index v).Mirrored decor? σ h ends? k (g.store index w) :=
  ⟨mirrored.housed.store value index, mirrored.ends, mirrored.fits.store old v w⟩

end Frame.Mirrored

/-! ### Stacks of frames -/

namespace Paired

theorem length_eq (frames : Paired decor? σ h base ends bottom fs gs) : gs.length = fs.length + base.length ∧ 0 < fs.length := by
  induction frames with
  | last => exact ⟨by simp [Nat.add_comm], by simp⟩
  | above _ _ _ ih => exact ⟨by simp only [List.length_cons, ih.1]; omega, by simp⟩

theorem shadows (frames : Paired decor? σ t.heap base ends bottom fs gs) (shadows : Machine.Shadows σ τ h t t') :
    Paired decor? τ t'.heap base ends bottom fs gs := by
  induction frames with
  | last mirrored => exact .last (mirrored.shadows shadows)
  | above k mirrored _ ih => exact .above k (mirrored.shadows shadows) ih

/-- The frames on top change. -/
theorem goes {cs ds : List Frame} (frames : Paired decor? σ h base ends bottom (f :: cs) (g :: ds))
    (change : ∀ {ends? k}, f.Mirrored decor? σ h ends? k g → f'.Mirrored decor? σ h ends? k g') :
    Paired decor? σ h base ends bottom (f' :: cs) (g' :: ds) := by
  cases frames with
  | last mirrored => exact .last (change mirrored)
  | above k mirrored below => exact .above k (change mirrored) below

theorem eq_cons (frames : Paired decor? σ h base ends bottom fs gs) : ∃ f cs g ds, fs = f :: cs ∧ gs = g :: ds := by
  cases frames <;> exact ⟨_, _, _, _, rfl, rfl⟩

/-- The frame on top goes along with its counterpart. -/
theorem top {cs ds : List Frame} (frames : Paired decor? σ h base ends bottom (f :: cs) (g :: ds)) :
    ∃ ends? k, f.Mirrored decor? σ h ends? k g := by
  cases frames with
  | last mirrored => exact ⟨_, _, mirrored⟩
  | above k mirrored _ => exact ⟨_, k, mirrored⟩

end Paired

end Frames

end AspectWeaving
