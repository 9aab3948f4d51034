import Columnar.ChunkFile
import Columnar.Proofs.ChunkFile.Index

/-!
# Where the blocks of a chunk file lie

**Placement** (`BlockRange.Holds`). A range of a file holds a block if the block lies at its offset,
in its length. Laying blocks out one after the other notes a range for each that holds it in the
file as a whole, whatever stands in front of the blocks and behind them (`layOutChunks_spec`,
`layOut_spec`).
-/

namespace Columnar

/-- The range of the file holds the block. -/
structure BlockRange.Holds (r : BlockRange) (file block : Bytes) : Prop where
  length_eq : r.length = block.length
  bytes : ∃ front rest, file = front ++ (block ++ rest) ∧ front.length = r.offset

namespace ChunkFile

variable {type : ChecksumType} {offset : Nat}

/-- What holds for the ranges noted for the chunks of a batch. -/
structure Placed (type : ChecksumType) (offset : Nat) (cs : List Chunk) (bytes : Bytes)
    (ranges : List BlockRange) : Prop where
  length_eq : ranges.length = cs.length
  ends : ∀ r ∈ ranges, r.offset + r.length ≤ offset + bytes.length
  holds : ∀ (front rest : Bytes), front.length = offset → ∀ {j : Nat} {c : Chunk} {r : BlockRange},
    cs[j]? = some c → ranges[j]? = some r →
    ∃ block, c.encodeBlock type = .ok block ∧ r.Holds (front ++ (bytes ++ rest)) block

theorem layOutChunks_spec {cs : List Chunk} {bytes : Bytes} {ranges : List BlockRange}
    (h : layOutChunks type offset cs = .ok (bytes, ranges)) :
    Placed type offset cs bytes ranges := by
  induction cs generalizing offset bytes ranges with
  | nil =>
    cases h
    refine ⟨rfl, fun r hr => absurd hr List.not_mem_nil, ?_⟩
    intro front rest _ j c r hc
    cases hc
  | cons c cs ih =>
    cases hblock : c.encodeBlock type with
    | error e =>
      simp only [layOutChunks, hblock] at h
      cases h
    | ok block =>
      cases hrest : layOutChunks type (offset + block.length) cs with
      | error e =>
        simp only [layOutChunks, hblock, Outcome.ok_bind, hrest] at h
        cases h
      | ok p =>
        obtain ⟨more, ranges'⟩ := p
        simp only [layOutChunks, hblock, Outcome.ok_bind, hrest] at h
        cases h
        have hp := ih hrest
        refine ⟨by rw [List.length_cons, List.length_cons, hp.length_eq], fun r hr => ?_, ?_⟩
        · rw [List.length_append]
          rcases List.mem_cons.mp hr with rfl | hr
          · dsimp only
            omega
          · have := hp.ends r hr
            omega
        · intro front rest hfront j c' r hc hr
          cases j with
          | zero =>
            cases hc
            cases hr
            refine ⟨block, hblock, rfl, front, more ++ rest, ?_, hfront⟩
            rw [List.append_assoc]
          | succ j =>
            -- the blocks behind the first one lie that much further on
            have := hp.holds (front ++ block) rest
              (by rw [List.length_append, hfront]) hc hr
            rwa [List.append_assoc, ← List.append_assoc block] at this

/-- What holds for the index noted for some batches. -/
structure Indexed (type : ChecksumType) (offset : Nat) (bs : List Batch) (bytes : Bytes)
    (index : List BatchIndex) : Prop where
  rows_eq : index.map BatchIndex.rows = bs.map Batch.rowCount
  widths_eq : index.map (·.blocks.length) = bs.map (·.chunks.length)
  ends : ∀ b ∈ index, ∀ r ∈ b.blocks, r.offset + r.length ≤ offset + bytes.length
  holds : ∀ (front rest : Bytes), front.length = offset → ∀ {i j : Nat} {b : Batch}
    {x : BatchIndex} {c : Chunk} {r : BlockRange}, bs[i]? = some b → index[i]? = some x →
    b.chunks[j]? = some c → x.blocks[j]? = some r →
    ∃ block, c.encodeBlock type = .ok block ∧ r.Holds (front ++ (bytes ++ rest)) block

theorem layOut_spec {bs : List Batch} {bytes : Bytes} {index : List BatchIndex}
    (h : layOut type offset bs = .ok (bytes, index)) : Indexed type offset bs bytes index := by
  induction bs generalizing offset bytes index with
  | nil =>
    cases h
    refine ⟨rfl, rfl, fun b hb => absurd hb List.not_mem_nil, ?_⟩
    intro front rest _ i j b x c r hb
    cases hb
  | cons b bs ih =>
    cases hblocks : layOutChunks type offset b.chunks with
    | error e =>
      simp only [layOut, hblocks] at h
      cases h
    | ok p =>
      obtain ⟨blocks, ranges⟩ := p
      have hp := layOutChunks_spec hblocks
      cases hrest : layOut type (offset + blocks.length) bs with
      | error e =>
        simp only [layOut, hblocks, Outcome.ok_bind, hrest] at h
        cases h
      | ok q =>
        obtain ⟨more, index'⟩ := q
        simp only [layOut, hblocks, Outcome.ok_bind, hrest] at h
        cases h
        have hi := ih hrest
        refine ⟨?_, ?_, fun x hx r hr => ?_, ?_⟩
        · rw [List.map_cons, List.map_cons, hi.rows_eq]
        · rw [List.map_cons, List.map_cons, hi.widths_eq, hp.length_eq]
        · rw [List.length_append]
          rcases List.mem_cons.mp hx with rfl | hx
          · have := hp.ends r hr
            omega
          · have := hi.ends x hx r hr
            omega
        · intro front rest hfront i j b' x c r hb hx hc hr
          cases i with
          | zero =>
            cases hb
            cases hx
            have := hp.holds front (more ++ rest) hfront hc hr
            rwa [← List.append_assoc blocks] at this
          | succ i =>
            -- the batches behind the first one lie behind all of its blocks
            have := hi.holds (front ++ blocks) rest
              (by rw [List.length_append, hfront]) hb hx hc hr
            rwa [List.append_assoc, ← List.append_assoc blocks] at this

theorem encode_eq_ok {specs : List ChunkSpec} {bs : List Batch} {data : Bytes}
    (h : encode specs type bs = .ok data) :
    ∃ blocks index, Indexed type headerSize bs blocks index ∧
      data = header ++ (blocks ++ ((index.flatMap BatchIndex.encode ++
        specs.flatMap ChunkSpec.encode) ++
          FileTail.encode ⟨specs.length, bs.length, headerSize + blocks.length⟩)) := by
  cases hlayout : layOut type headerSize bs with
  | error e =>
    rw [encode, hlayout] at h
    cases h
  | ok p =>
    obtain ⟨blocks, index⟩ := p
    rw [encode, hlayout] at h
    cases h
    have hi := layOut_spec hlayout
    have hlen : index.length = bs.length := by simpa using congrArg List.length hi.rows_eq
    exact ⟨blocks, index, hi, by simp only [List.append_assoc, hlen]⟩

end ChunkFile

end Columnar
