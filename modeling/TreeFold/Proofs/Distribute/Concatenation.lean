import TreeFold.Proofs.Distribute.LastWriter
import TreeFold.Proofs.Isolation
import TreeFold.Proofs.Segment.Concatenation
import TreeFold.Proofs.Text.Utf8

/-!
# Distributing blobs put together

A distribution writes what its blobs hold, whatever files they are read from. Blobs that can be put
together are hence distributed as the one file that holds them all: the same files are written, with
the same texts and in the same order, and the same writes fail.
-/

namespace TreeFold

open FileSystem

namespace Batch

/-- The two batches have written the same files, and the same writes have failed in them. -/
structure SameWrites (one other : Batch) : Prop where
  fs : one.fs = other.fs
  written : one.report.written = other.report.written
  skipped : one.report.skipped = other.report.skipped
  outputs : one.report.outputs = other.report.outputs
  failures : one.report.failures.filter (·.kind = "write") =
    other.report.failures.filter (·.kind = "write")

end Batch

namespace Distribute

open Text Batch Segment

variable {options : Options} {rules : List AliasRule} {fs : FileSystem} {blobs others : List Path}

/-- A distribution has written what its planned writes come to. -/
theorem sameWrites_of_plannedWrites
    (h : plannedWrites options rules fs blobs = plannedWrites options rules fs others) :
    (files options rules fs blobs).SameWrites (files options rules fs others) := by
  have hone := files_isolates options rules fs blobs
  have hother := files_isolates options rules fs others
  have hwrites : writeReadable options rules fs blobs = writeReadable options rules fs others := by
    rw [writeReadable, writeReadable, plannedWrites_readableOf, plannedWrites_readableOf, h]
  have hall := hother.absorbs
  have hfailed := hother.writes
  rw [← hwrites] at hall hfailed
  constructor
  · exact hone.absorbs.fs.trans hall.fs.symm
  · exact hone.absorbs.written.trans hall.written.symm
  · exact hone.absorbs.skipped.trans hall.skipped.symm
  · exact hone.absorbs.outputs.trans hall.outputs.symm
  · exact hone.writes.trans hfailed.symm

/-- The writes of segments are those of each segment in turn. -/
theorem segmentWrites_flatMap (target : Path) (texts : List Text) :
    segmentWrites target (texts.flatMap (extract rules)) =
      texts.flatMap fun text => segmentWrites target (extract rules text) := by
  simp only [segmentWrites, List.filterMap_flatMap]

/-- The blobs hold the texts. -/
def Hold (fs : FileSystem) (blobs : List Path) (texts : List Text) : Prop :=
  List.Forall₂ (fun blob text => fs.readText blob = .ok text) blobs texts

theorem readSegments_of_readText {blob : Path} {text : Text} (h : fs.readText blob = .ok text) :
    readSegments rules fs blob = .ok (extract rules text) := by
  rw [readSegments, h]

/-- What is planned for blobs depends on their texts only. -/
theorem plannedWrites_of_hold {texts : List Text} (h : Hold fs blobs texts) :
    plannedWrites options rules fs blobs =
      texts.flatMap fun text => segmentWrites options.target (extract rules text) := by
  induction h with
  | nil => rfl
  | cons hread hrest ih =>
      rw [plannedWrites] at ih ⊢
      rw [List.flatMap_cons, List.flatMap_cons, ih, readSegments_of_readText hread, blobWrites]

/-- Bytes of texts that can be put together are read as the texts put together. -/
theorem decodeLossy_flatten {contents : List (List UInt8)}
    (h : (contents.map decodeLossy).IsChain (Adjoins rules)) :
    decodeLossy contents.flatten = (contents.map decodeLossy).flatten := by
  induction contents with
  | nil => rfl
  | cons content contents ih =>
      have hrest := ih h.tail
      cases contents with
      | nil => simp
      | cons next contents =>
          have hend := (h.rel_head? rfl : Adjoins rules (decodeLossy content) _).terminated
          have hwhole : (decodeLossy content).getLast? ≠ some replacement := by
            rcases hend with hnil | hbreak
            · simp [hnil]
            · intro hlast
              rw [EndsInBreak, hlast] at hbreak
              exact absurd hbreak (by decide)
          rw [List.flatten_cons, decodeLossy_append hwhole, hrest]
          rfl

/-- A file that holds the bytes of adjoining blobs holds their texts put together. -/
theorem readText_flatten {contents : List (List UInt8)} {whole : Path}
    (hwhole : fs.readBytes whole = .ok contents.flatten)
    (hchain : (contents.map decodeLossy).IsChain (Adjoins rules)) :
    fs.readText whole = .ok (contents.map decodeLossy).flatten := by
  rw [readText, hwhole, ← decodeLossy_flatten hchain]
  rfl

theorem hold_of_readBytes {contents : List (List UInt8)}
    (h : List.Forall₂ (fun blob content => fs.readBytes blob = .ok content) blobs contents) :
    Hold fs blobs (contents.map decodeLossy) := by
  apply List.forall₂_map_right_iff.mpr
  apply h.imp
  intro blob content hread
  rw [readText, hread]
  rfl

/-- Adjoining texts put together have the segments of the first and then those of the second.
Adjoining blobs are distributed alike one after the other and as one file that holds the bytes of
all. -/
theorem adjoining_extract_files (rules : List AliasRule) :
    (∀ front back, Adjoins rules front back →
        extract rules (front ++ back) = extract rules front ++ extract rules back) ∧
      ∀ (options : Options) (fs : FileSystem) (blobs : List Path) (contents : List (List UInt8))
        (whole : Path),
        List.Forall₂ (fun blob content => fs.readBytes blob = .ok content) blobs contents →
        fs.readBytes whole = .ok contents.flatten →
        (contents.map decodeLossy).IsChain (Adjoins rules) →
        (files options rules fs [whole]).SameWrites (files options rules fs blobs) := by
  refine ⟨fun front back h => extract_append h, ?_⟩
  intro options fs blobs contents whole hblobs hwhole hchain
  have hone : Hold fs [whole] [(contents.map decodeLossy).flatten] :=
    .cons (readText_flatten hwhole hchain) .nil
  apply sameWrites_of_plannedWrites
  calc
    plannedWrites options rules fs [whole]
        = segmentWrites options.target (extract rules (contents.map decodeLossy).flatten) := by
      rw [plannedWrites_of_hold hone, List.flatMap_singleton]
    _ = (contents.map decodeLossy).flatMap fun text =>
        segmentWrites options.target (extract rules text) := by
      rw [extract_flatten hchain, segmentWrites_flatMap]
    _ = plannedWrites options rules fs blobs :=
      (plannedWrites_of_hold (hold_of_readBytes hblobs)).symm

/-- A segment that ends in a lone carriage return. -/
def returnEnded : Text := ['#', 'a', '.', 'b', '\n', 'X', '\r']

/-- An indented annotation for the same file, its path spelled in another way. -/
def indented : Text := ['\t', '/', '/', '.', '/', 'a', '.', 'b', '\n', '\n', 'Y']

/-- The two blobs and the file that holds both. -/
def besideWhole : FileSystem :=
  ⟨[([['k']], .file (encodeUtf8 returnEnded)), ([['m']], .file (encodeUtf8 indented)),
    ([['n']], .file (encodeUtf8 returnEnded ++ encodeUtf8 indented))], []⟩

/-- From the whole the second segment is written over the first one, as from the two blobs. -/
theorem besideWhole_extract_files :
    Adjoins [] returnEnded indented ∧
      extract [] (returnEnded ++ indented) = extract [] returnEnded ++ extract [] indented ∧
      (files intoWorkingDir [] besideWhole [⟨['n']⟩]).fs.get? [['a', '.', 'b']] =
        some (.file (encodeUtf8 ['Y'])) ∧
      (files intoWorkingDir [] besideWhole [⟨['n']⟩]).report.written = 2 := by
  have hadjoins : Adjoins [] returnEnded indented := by decide
  have hchain : ([encodeUtf8 returnEnded, encodeUtf8 indented].map decodeLossy).IsChain
      (Adjoins []) := by
    simpa using hadjoins
  have hblobs : List.Forall₂ (fun blob content => besideWhole.readBytes blob = .ok content)
      [⟨['k']⟩, ⟨['m']⟩] [encodeUtf8 returnEnded, encodeUtf8 indented] :=
    .cons (by rfl) (.cons (by rfl) .nil)
  obtain ⟨hextract, hfiles⟩ := adjoining_extract_files []
  have hsame := hfiles intoWorkingDir besideWhole _ _ ⟨['n']⟩ hblobs (by rfl) hchain
  refine ⟨hadjoins, hextract _ _ hadjoins, ?_, ?_⟩
  · rw [hsame.fs]
    decide +kernel
  · rw [hsame.written]
    decide +kernel

end Distribute

end TreeFold
