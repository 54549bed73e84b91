import PgBatch.Nodes.HashJoinTable
import PgBatch.Nodes.SharedChainsRun

/-! The key tests of the hash join compare the hash and all keys but the last.
Together these decide the whole key tuple, since the hash can be undone in its last key. -/
namespace PgBatch.HashJoin
open Columnar

variable {ι τ : Type} [Inhabited τ]

/-- Every test of a build row against another or against a probe row is exact: `build_keys_equal`,
`find_build_head`, `detect_build_duplicate`, `parallel_hash_join_find_head` in both its tables, and
`parallel_hash_join_next`, which takes the hash from a build row. -/
theorem key_tests_exact (config : Config) (store : BuildStore ι) (table : SharedChains.Table τ) :
    (∀ init left right, keyHash (init ++ [left]) = keyHash (init ++ [right]) → left = right) ∧
    (∀ left right, store.hashes left = keyHash (keysOf config store left) →
      store.hashes right = keyHash (keysOf config store right) →
      ((store.hashes left == store.hashes right && buildKeysEqual config store left right) = true ↔
        keysOf config store left = keysOf config store right)) ∧
    (∀ probe values row, config.outerKeys.mapM probe = some values →
      store.hashes row = keyHash (keysOf config store row) →
      (probeMatches config store probe (keyHash values) row = true ↔ keysOf config store row = values) ∧
      (localMatches config store probe (keyHash values) row = true ↔ keysOf config store row = values)) ∧
    (∀ left right, table.Holds left → table.Holds right →
      (table.duplicate left right = true ↔ table.keys left = table.keys right)) ∧
    (∀ outerKeys probe values place, outerKeys.length = table.config.innerKeys.length →
      outerKeys.mapM probe = some values → table.Holds place →
      (SharedChains.matchesKeys table outerKeys probe (keyHash values) place = true ↔ table.keys place = values) ∧
      ∀ first, table.Holds first → table.keys first = values →
        (SharedChains.matchesKeys table outerKeys probe (table.hash first) place = true ↔
          table.keys place = values)) := by
  refine ⟨fun _ _ _ => keyHash_last,fun _ _ => buildKeysEqual_iff,
    fun probe values row given hashed => ⟨probeMatches_iff given hashed,localMatches_iff given hashed⟩,
    fun _ _ => SharedChains.duplicate_iff,?_⟩
  intro outerKeys probe values place paired given holds
  refine ⟨SharedChains.matchesKeys_iff holds paired given,?_⟩
  rintro first held rfl
  rw [held.hash]
  exact SharedChains.matchesKeys_iff holds paired given

theorem key_tests_pair : (5#32 : Int4) = 5#32 ∧
    (SharedChains.twins.duplicate (0,0) (0,1) = true ↔ SharedChains.twins.keys (0,0) = SharedChains.twins.keys (0,1)) :=
  have exact_ := key_tests_exact twoRows.1 twoRows.2 SharedChains.twins
  ⟨exact_.1 [3#32] 5#32 5#32 rfl,exact_.2.2.2.1 (0,0) (0,1) ⟨by decide,by decide⟩ ⟨by decide,by decide⟩⟩

end PgBatch.HashJoin
