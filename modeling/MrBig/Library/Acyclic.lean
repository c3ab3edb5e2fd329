import Mathlib.Data.Set.Finite.Basic
import Mathlib.Logic.Relation
import Mathlib.Order.WellFounded

/-!
# Acyclic relations with finitely many sources

A relation without cycles that leaves only finitely many points can be followed only
finitely often from any point, so recursion along it is well-founded.
-/

set_option autoImplicit false

namespace Library.Acyclic

variable {α : Type*} {r : α → α → Prop}

theorem wellFounded_of_finite_sources {sources : Set α} (finite : sources.Finite)
    (leaves : ∀ a b, r a b → a ∈ sources) (acyclic : ∀ a, ¬ Relation.TransGen r a a) :
    WellFounded (fun b a => r a b) := by
  have : Finite sources := finite
  have : IsTrans sources fun b a => Relation.TransGen r a.1 b.1 :=
    ⟨fun _ _ _ later earlier => earlier.trans later⟩
  have : Std.Irrefl fun (b a : sources) => Relation.TransGen r a.1 b.1 :=
    ⟨fun a => acyclic a.1⟩
  have onSources : WellFounded fun (b a : sources) => Relation.TransGen r a.1 b.1 :=
    Finite.wellFounded_of_trans_of_irrefl _
  have fromSource : ∀ a : sources, Acc (fun b a => r a b) a.1 := by
    intro a
    induction a using onSources.induction with
    | h a ih =>
      refine Acc.intro a.1 fun b step => ?_
      by_cases source : b ∈ sources
      · exact ih ⟨b, source⟩ (.single step)
      · exact Acc.intro b fun c next => absurd (leaves b c next) source
  refine ⟨fun a => ?_⟩
  by_cases source : a ∈ sources
  · exact fromSource ⟨a, source⟩
  · exact Acc.intro a fun b step => absurd (leaves a b step) source

theorem not_self_of_acc {a : α} (acc : Acc r a) : ¬ r a a := by
  induction acc with
  | intro a _ ih => exact fun self => ih a self self

/-- A point from which the relation cannot be followed for ever is one that no cycle is reached
from. -/
theorem acc_iff_no_cycle {sources : Set α} (finite : sources.Finite)
    (leaves : ∀ a b, r a b → a ∈ sources) (start : α) :
    Acc (fun b a => r a b) start ↔
      ¬∃ a, Relation.ReflTransGen r start a ∧ Relation.TransGen r a a := by
  constructor
  · rintro acc ⟨a, reached, cycle⟩
    have there : Acc (fun b a => r a b) a := by
      clear cycle
      induction reached with
      | refl => exact acc
      | tail _ step ih => exact ih.inv step
    exact not_self_of_acc there.transGen (Relation.transGen_swap.mpr cycle)
  · intro noCycle
    have forget : ∀ {a b}, Relation.TransGen
        (fun a b => Relation.ReflTransGen r start a ∧ r a b) a b →
        Relation.ReflTransGen r start a ∧ Relation.TransGen r a b := by
      intro a b path
      induction path with
      | single step => exact ⟨step.1, .single step.2⟩
      | tail _ step ih => exact ⟨ih.1, ih.2.tail step.2⟩
    have wellFounded := wellFounded_of_finite_sources finite
      (fun a b step => leaves a b step.2) fun a cycle => noCycle ⟨a, forget cycle⟩
    have reached : ∀ a, Relation.ReflTransGen r start a → Acc (fun b a => r a b) a := by
      intro a
      induction a using wellFounded.induction with
      | h a ih => exact fun path => Acc.intro a fun b step => ih b ⟨path, step⟩ (path.tail step)
    exact reached start .refl

end Library.Acyclic
