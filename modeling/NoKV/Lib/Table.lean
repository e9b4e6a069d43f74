import NoKV.Lib.OrdMap
import NoKV.Lib.Except

/-!
# Tables of rows

An ordered map as a table: the rows a write leaves, and its size.
-/

namespace NoKV.Lib

namespace OrdMap

variable {κ ν : Type} [LinearOrder κ]

lemma get_erase_self (m : OrdMap κ ν) (k : κ) : (m.erase k).get k = none := by
  rw [get_erase, if_pos rfl]

lemma insert_ne {m : OrdMap κ ν} {k : κ} {v : ν} (h : m.get k = none) : m.insert k v ≠ m := fun heq => by
  have hk := get_insert_self m k v
  rw [heq, h] at hk
  cases hk

lemma erase_ne {m : OrdMap κ ν} {k : κ} (h : m.get k ≠ none) : m.erase k ≠ m := fun heq =>
  h (heq ▸ get_erase_self m k)

/-! ### Size -/

def size (m : OrdMap κ ν) : ℕ := m.rows.length

end OrdMap

end NoKV.Lib
