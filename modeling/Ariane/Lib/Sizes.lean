/-
# Sizes

The sizes of vectors, ways and register blocks are numerals. That one is not zero, which its elements
`0 : Fin n` rest on, has a name here for each size that occurs, so that an element is the same term in
every module.
-/
import Mathlib.Data.BitVec

namespace Ariane
namespace Lib

instance neZero_one : NeZero 1 := ⟨by decide⟩
instance neZero_two : NeZero 2 := ⟨by decide⟩
instance neZero_three : NeZero 3 := ⟨by decide⟩
instance neZero_four : NeZero 4 := ⟨by decide⟩
instance neZero_six : NeZero 6 := ⟨by decide⟩
instance neZero_eight : NeZero 8 := ⟨by decide⟩

end Lib
end Ariane
