import Symtab.Proofs.Listing
import Symtab.Proofs.Table.Representation

/-!
# Listings of tables

The listing of a table reads back as the values and names of its labels in the order of declaration.
A value is read back up to multiples of the range of 32 bits, and a label without a value counts as
zero. The reason is that labels have valid names, and that no valid name has a character that
separates the parts of a listing.

So the stored bytes tell two tables apart exactly when these values and names or the settings of the
end marker differ. Equations, contexts and the counter of generated names leave no trace.
-/

namespace Symtab

theorem Listing.canShow_of_isValid {name : String} (valid : Name.isValid name = true) :
    Listing.CanShow name := by
  rw [Listing.CanShow, Name.toList_eq_append_body]
  refine ⟨?_, ?_⟩
  · intro isEmpty
    exact Name.body_ne_nil_of_isValid valid (List.append_eq_nil_iff.mp isEmpty).2
  · intro c charMem
    rcases List.mem_append.mp charMem with inSigil | inBody
    · rw [List.eq_of_mem_replicate inSigil]
      decide
    · have symbolChar := Name.symbolChars_of_isValid valid c inBody
      simp only [Listing.isNameChar, Bool.and_eq_true, bne_iff_ne]
      refine ⟨⟨?_, ?_⟩, ?_⟩
      · rintro rfl
        simp [Name.isSymbolChar] at symbolChar
      · rintro rfl
        simp [Name.isSymbolChar] at symbolChar
      · rintro rfl
        simp [Name.isSymbolChar] at symbolChar

namespace Table

/-- The values and names that a listing tells about the labels: values count modulo the range of 32
bits, and a label without a value counts as zero. -/
def listedRows (table : Table) : List (Int × String) :=
  table.labels.toList.map fun label =>
    ((label.value.getD 0).toInt % (UInt32.size : Int), label.name)

/-- A listed value is the low 32 bits of the value. -/
theorem toNat_listedValue (label : Label) :
    ((listedValue label).toNat : Int) = (label.value.getD 0).toInt % (UInt32.size : Int) := by
  rw [listedValue]
  generalize label.value.getD 0 = value
  have lowBits : value.toInt32.toUInt32.toNat = value.toBitVec.toNat % UInt32.size := by
    change value.toInt32.toBitVec.toNat = _
    rw [Int64.toBitVec_toInt32, BitVec.signExtend_eq_setWidth_of_le _ (by omega),
      BitVec.toNat_setWidth]
  have signed : value.toInt = Int.bmod value.toBitVec.toNat UInt64.size :=
    BitVec.toInt_eq_toNat_bmod value.toBitVec
  rw [lowBits, signed]
  simp only [Int.bmod_def, UInt32.size, UInt64.size]
  omega

theorem rows_listing (table : Table) :
    table.listing.rows.map (fun row => ((row.1.toNat : Int), row.2)) = table.listedRows := by
  rw [listing, List.map_map, listedRows]
  apply List.map_congr_left
  intro label _
  simp only [Function.comp_apply, toNat_listedValue]

/-- The labels of a table have the names of their keys, so their names are valid. -/
theorem WellFormed.isValid_of_mem_labels {table : Table} (wellFormed : table.WellFormed)
    {label : Label} (labelMem : label ∈ table.labels.toList) : Name.isValid label.name = true := by
  rcases Arena.mem_toList_iff.mp labelMem with ⟨id, found⟩
  have inUse := (table.labels.exists_get?_eq_some_iff id).mp ⟨label, found⟩
  rcases wellFormed.existsUnique_key (.label id) inUse with ⟨key, bound, _⟩
  rcases wellFormed.suits key (.label id) bound with ⟨same, foundSame, sameName⟩
  have lookup : table.label? id = some label := found
  rw [lookup, Option.some.injEq] at foundSame
  rw [foundSame, sameName]
  exact (wellFormed.canonical key (mem_index_iff.mpr ⟨_, bound⟩)).isValid_name

theorem WellFormed.canShow_listing {table : Table} (wellFormed : table.WellFormed) :
    ∀ row ∈ table.listing.rows, Listing.CanShow row.2 := by
  intro row rowMem
  rcases List.mem_map.mp rowMem with ⟨label, labelMem, rfl⟩
  exact Listing.canShow_of_isValid (wellFormed.isValid_of_mem_labels labelMem)

theorem rows_eq_of_listedRows_eq {table other : Table}
    (sameRows : table.listedRows = other.listedRows) : table.listing.rows = other.listing.rows := by
  rw [← rows_listing, ← rows_listing] at sameRows
  refine (List.map_inj_right ?_).mp sameRows
  rintro ⟨value, name⟩ ⟨otherValue, otherName⟩ sameRow
  simp only [Prod.mk.injEq, Int.natCast_inj, UInt32.toNat_inj] at sameRow
  exact Prod.ext sameRow.1 sameRow.2

/-- The stored listing of a table that a run of operations leads to reads back as the values and
names of its labels and the setting of the end marker, and two such tables have the same stored
listing exactly when these agree. -/
theorem listing_reads_back {table : Table} (reachable : table.Reachable) :
    (∃ listing, Listing.ofBytes? table.listing.render.toUTF8 = some listing ∧
      listing.rows.map (fun row => ((row.1.toNat : Int), row.2)) = table.listedRows ∧
      listing.endMarker = table.settings.endMarker) ∧
    ∀ other : Table, other.Reachable →
      (table.listing.render.toUTF8 = other.listing.render.toUTF8 ↔
        table.listedRows = other.listedRows ∧
          table.settings.endMarker = other.settings.endMarker) := by
  have readsBack : ∀ {any : Table}, any.Reachable →
      Listing.ofBytes? any.listing.render.toUTF8 = some any.listing := by
    intro any anyReachable
    exact Listing.ofBytes?_eq_some_iff.mpr ⟨anyReachable.wellFormed.canShow_listing, rfl⟩
  refine ⟨⟨table.listing, readsBack reachable, table.rows_listing, rfl⟩, ?_⟩
  intro other otherReachable
  constructor
  · intro sameBytes
    have sameListing : table.listing = other.listing := by
      have readTable := readsBack reachable
      rw [sameBytes, readsBack otherReachable] at readTable
      exact (Option.some.inj readTable).symm
    refine ⟨?_, congrArg Listing.endMarker sameListing⟩
    rw [← rows_listing, ← rows_listing, sameListing]
  · rintro ⟨sameRows, sameMarker⟩
    have sameListing : table.listing = other.listing := by
      have rowsEq := rows_eq_of_listedRows_eq sameRows
      simp only [listing] at rowsEq ⊢
      rw [rowsEq, sameMarker]
    rw [sameListing]

/-- The listing of a negative, a wide and a missing value, with an equation that leaves no trace. -/
theorem listing_reads_back_truncated :
    let table := ({} : Table).after
      [.labelFor "main" ⟨0, 0⟩, .declareEquation "SIZE" ⟨0, 0⟩ "16", .labelFor "@loop" ⟨1, 0⟩,
        .labelFor "end" ⟨0, 0⟩, .defineLabel ⟨0⟩ (-1), .setLabelValue ⟨1⟩ 0x108000040]
    table.Reachable ∧
      table.listing.render = "00000000 0\nFFFFFFFF main\n08000040 @loop\n00000000 end\n\x1a" ∧
      ∃ listing, Listing.ofBytes? table.listing.render.toUTF8 = some listing ∧
        listing.rows.map (fun row => ((row.1.toNat : Int), row.2)) =
          [(0xFFFFFFFF, "main"), (0x08000040, "@loop"), (0, "end")] ∧
        listing.endMarker = true := by
  intro table
  have reachable : table.Reachable := Reachable.new.after _
  have rows : table.listedRows = [(0xFFFFFFFF, "main"), (0x08000040, "@loop"), (0, "end")] := by
    decide +kernel
  have marked : table.settings.endMarker = true := by decide +kernel
  refine ⟨reachable, by decide +kernel, ?_⟩
  rw [← rows, ← marked]
  exact (listing_reads_back reachable).1

end Table

end Symtab
