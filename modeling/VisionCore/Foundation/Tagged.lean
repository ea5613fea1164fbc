import Mathlib.Data.List.Infix

/-!
# Tagged words

Words of several kinds share one name space when each starts with the tag of its kind.
They stay apart as long as no tag starts another.
-/

namespace VisionCore
namespace Foundation

variable {Kind α : Type} {tag : Kind -> List α}

def PrefixFree (tag : Kind -> List α) : Prop :=
  forall kind kind', tag kind <+: tag kind' -> kind = kind'

/-- A tagged word determines its kind and the word. -/
theorem PrefixFree.append_inj (h : PrefixFree tag) {kind kind' : Kind} {word word' : List α}
    (heq : tag kind ++ word = tag kind' ++ word') : kind = kind' ∧ word = word' := by
  have hkind : kind = kind' := by
    have hleft : tag kind <+: tag kind' ++ word' := heq ▸ List.prefix_append _ _
    rcases List.prefix_or_prefix_of_prefix hleft (List.prefix_append _ _) with hstart | hstart
    · exact h _ _ hstart
    · exact (h _ _ hstart).symm
  subst hkind
  exact ⟨rfl, List.append_cancel_left heq⟩

end Foundation
end VisionCore
