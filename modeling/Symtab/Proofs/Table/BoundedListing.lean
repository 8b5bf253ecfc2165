import Mathlib.Logic.Basic
import Symtab.Proofs.TextBytes
import Symtab.Table.Operation

/-!
# Listings in buffers

A listing is written piece by piece, and a buffer of bounded size may cut any of the pieces. The
division into pieces leaves no trace: writing them one after the other, up to the first that is cut,
comes to the same as writing the whole at once. So a buffer holds as much of the front of a listing
as there is room for, and the writer is refused exactly when that is not everything.
-/

namespace Symtab

namespace Storage

namespace Buffer

variable {buffer : Buffer} {first second : List UInt8}

theorem bytes_write (buffer : Buffer) (bytes : List UInt8) :
    (buffer.write bytes).1.bytes = buffer.bytes ++ bytes.take buffer.room := rfl

theorem result_write (buffer : Buffer) (bytes : List UInt8) :
    (buffer.write bytes).2 = if bytes.length ≤ buffer.room then .ok () else .error .bufferFull :=
  rfl

theorem outcome_ext {outcome other : Buffer × Except Fault Unit}
    (sameCapacity : outcome.1.capacity = other.1.capacity)
    (sameBytes : outcome.1.bytes = other.1.bytes) (sameResult : outcome.2 = other.2) :
    outcome = other := by
  rcases outcome with ⟨⟨_, _, _⟩, _⟩
  rcases other with ⟨⟨_, _, _⟩, _⟩
  simp only at sameCapacity sameBytes sameResult
  subst sameCapacity sameBytes sameResult
  rfl

theorem room_write_of_fits (fits : first.length ≤ buffer.room) :
    (buffer.write first).1.room = buffer.room - first.length := by
  change buffer.capacity - (buffer.bytes ++ first.take buffer.room).length = _
  rw [List.take_of_length_le fits, List.length_append, ← Nat.sub_sub]
  rfl

/-- Bytes that fit leave the rest of the room to what comes after them. -/
theorem write_append_of_fits (fits : first.length ≤ buffer.room) :
    buffer.write (first ++ second) = (buffer.write first).1.write second := by
  have roomLeft := room_write_of_fits fits
  apply outcome_ext
  · rfl
  · simp only [bytes_write, roomLeft, List.take_append, List.append_assoc]
  · simp only [result_write, roomLeft, List.length_append]
    apply if_congr _ rfl rfl
    omega

/-- Bytes that are cut leave no room to what comes after them. -/
theorem write_append_of_cut (cut : buffer.room < first.length) :
    buffer.write (first ++ second) = buffer.write first := by
  apply outcome_ext
  · rfl
  · simp only [bytes_write, List.take_append_of_le_length (Nat.le_of_lt cut)]
  · simp only [result_write, List.length_append]
    apply if_congr _ rfl rfl
    omega

/-- It does not matter into how many pieces the written bytes are divided. -/
theorem writeAll_eq_write_flatten (buffer : Buffer) (pieces : List (List UInt8)) :
    buffer.writeAll pieces = buffer.write pieces.flatten := by
  induction pieces generalizing buffer with
  | nil =>
      apply outcome_ext
      · rfl
      · simp [writeAll, bytes_write]
      · rfl
  | cons piece pieces ih =>
      rw [List.flatten_cons]
      have result := buffer.result_write piece
      by_cases fits : piece.length ≤ buffer.room
      · rw [if_pos fits] at result
        rw [write_append_of_fits fits, ← ih, writeAll]
        split
        next filled wrote => rw [wrote]
        next wrote => rw [wrote] at result; cases result
      · rw [if_neg fits] at result
        rw [write_append_of_cut (Nat.lt_of_not_le fits), writeAll]
        split
        next wrote => rw [wrote] at result; cases result
        next filled fault wrote => exact wrote.symm

end Buffer

end Storage

namespace Listing

/-- Into a buffer goes what would be written to it at once. -/
theorem writeWithin_eq_write (listing : Listing) (capacity : Nat) :
    listing.writeWithin capacity =
      Storage.Buffer.write { capacity } listing.render.toUTF8.toList := by
  rw [writeWithin, Storage.Buffer.writeAll_eq_write_flatten, ← Storage.bytes_join]
  rfl

end Listing

/-- A buffer holds the bytes of the listing of a table up to its capacity. The writer is refused
exactly when the listing is longer, and the table stays as it is in any case. -/
theorem Table.listing_fills_buffer (table : Table) (capacity : Nat) :
    ∃ text buffer result, (table.perform .listing).answer = .text text ∧
      (table.perform (.listingWithin capacity)).answer = .buffer buffer result ∧
      let full := text.toUTF8.toList
      buffer.bytes = full.take (min capacity full.length) ∧
        result = (if full.length ≤ capacity then .ok ()
          else .error (.storage "failed to write whole buffer")) ∧
        (table.perform (.listingWithin capacity)).table = table := by
  have written := table.listing.writeWithin_eq_write capacity
  refine ⟨table.listing.render, (table.listing.writeWithin capacity).1,
    (table.listing.writeWithin capacity).2.mapError .ofStorage, rfl, rfl, ?_, ?_, rfl⟩
  · rw [written, Storage.Buffer.bytes_write]
    exact List.take_eq_take_min
  · rw [written, Storage.Buffer.result_write]
    change Except.mapError _ (if table.listing.render.toUTF8.toList.length ≤ capacity then _
      else _) = _
    split
    · rfl
    · rfl

end Symtab
