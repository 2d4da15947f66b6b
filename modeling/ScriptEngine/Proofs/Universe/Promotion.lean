import ScriptEngine.Proofs.Types.EmbeddingPath
import ScriptEngine.Proofs.Universe.History

/-!
Promoted methods in the universes that operations lead to. Names can embed themselves and each
other there, unnamed structs can be embedded, and one type can be reached in many ways; the search
still tells exactly whether one shallowest embedding path leads to the method
(`findMethod_isSome_iff_existsUnique`).
-/

namespace ScriptEngine

namespace Universe

/-- **The search finds a method exactly if one shallowest embedding path leads to it.** What it
finds is that path, the type at its end, the index of the method there and whether the last field,
or for the empty path the type itself, is a pointer. -/
theorem findMethod_isSome_iff_existsUnique {u : Universe} (h : u.Reachable) (ty : TypeId)
    (name : String) :
    ((u.catalog.findMethod ty name).isSome = true ↔
        ∃! path, u.catalog.IsShallowest ty name path) ∧
      ∀ p, u.catalog.findMethod ty name = some p → u.catalog.IsShallowest ty name p.fields ∧
        (∀ path, u.catalog.IsShallowest ty name path → path = p.fields) ∧
        u.catalog.Describes ty name p := by
  have hfinds := h.wellFormed.findMethod_finds ty name
  refine ⟨hfinds.isSome_iff, fun p hp => ?_⟩
  obtain ⟨hdescribes, hshallow, honly⟩ := (hfinds p).mp hp
  exact ⟨hshallow, honly, hdescribes⟩

/-- A name that embeds itself behind a pointer and, through an unnamed struct, a name with a method:
`type Base`, `func (b *Base) Close()`, `type Loop struct { inner struct { *Base }; *Loop }`. -/
def selfEmbedding : Universe := after [
  .declareNamed "Base" none,
  .pointerTo ⟨0⟩,
  .addMethod ⟨0⟩ ⟨"Close", none, ⟨some ⟨1⟩, [], [], false⟩⟩,
  .structOf [⟨"Base", ⟨1⟩, true⟩],
  .declareNamed "Loop" none,
  .pointerTo ⟨3⟩,
  .structOf [⟨"inner", ⟨2⟩, true⟩, ⟨"Loop", ⟨4⟩, true⟩],
  .setUnderlying ⟨3⟩ ⟨5⟩]

/-- Of the paths `inner.Base`, `Loop.inner.Base`, … the first is the shallowest. -/
theorem existsUnique_isShallowest_selfEmbedding :
    selfEmbedding.Reachable ∧
      selfEmbedding.catalog.findMethod ⟨4⟩ "Close" = some ⟨[0, 0], ⟨0⟩, 0, true⟩ ∧
      selfEmbedding.catalog.IsShallowest ⟨4⟩ "Close" [0, 0] ∧
      ∃! path, selfEmbedding.catalog.IsShallowest ⟨4⟩ "Close" path := by
  have hreach : selfEmbedding.Reachable := reachable_after (by decide +kernel)
  have hfound : selfEmbedding.catalog.findMethod ⟨4⟩ "Close" = some ⟨[0, 0], ⟨0⟩, 0, true⟩ := by
    decide +kernel
  obtain ⟨hiff, hpath⟩ := findMethod_isSome_iff_existsUnique hreach ⟨4⟩ "Close"
  exact ⟨hreach, hfound, (hpath _ hfound).1, hiff.mp (by rw [hfound]; rfl)⟩

end Universe

end ScriptEngine
