import Mathlib.Data.List.Forall2
import Unbundle.Container.Encoder
import Unbundle.Proofs.Answer
import Unbundle.Container.Parser

/-!
Reading a container that was written. Main statement `entries_of_encode`: there is one entry for
each file, in order, and it gives the file back, whatever follows the container.
-/

namespace Unbundle.Container

/-- The path that a file is unpacked to; none of its own if its name is not a safe one. -/
def File.path (file : File) : Bytes := (Path.canonical? file.name).getD []

/-- Files that fit a container: safe names, and sections whose lengths fit a word. -/
structure Packable (files : List File) : Prop where
  named : ∀ file ∈ files, Path.canonical? file.name ≠ none
  index : (index 0 files).length < Word32.size
  data : (data files).length < Word32.size

/-- The entries of files whose contents start at the given place of the data section. -/
def entriesFrom (dataBase start : Nat) : List File → List Entry
  | [] => []
  | file :: files =>
    ⟨file.path, dataBase + start, file.content.length⟩ ::
      entriesFrom dataBase (start + file.content.length) files

private theorem wordAt_append (front back : Bytes) :
    wordAt (front ++ back) front.length = (Word32.read? back).getD 0 := by
  rw [wordAt, List.drop_left]

private theorem wordAt_encode {n : Nat} (small : n < Word32.size) (front back : Bytes) :
    wordAt (front ++ (Word32.encode n ++ back)) front.length = n := by
  rw [wordAt_append, Word32.read?_encode_append, Nat.mod_eq_of_lt small]
  rfl

private theorem length_index_cons (start : Nat) (file : File) (files : List File) :
    (index start (file :: files)).length =
      file.name.length + 12 + (index (start + file.content.length) files).length := by
  rw [index]
  simp only [List.length_append, Word32.length_encode]
  omega

private theorem length_data_cons (file : File) (files : List File) :
    (data (file :: files)).length = file.content.length + (data files).length := by
  rw [data, List.flatMap_cons, List.length_append]
  rfl

theorem readRecord_encode {header : Header} {file : File} {start : Nat} {path : Bytes}
    (number : Nat) (more : Bytes) (found : Path.canonical? file.name = some path)
    (name : file.name.length < Word32.size) (small : start + file.content.length < Word32.size)
    (inside : start + file.content.length ≤ header.dataLength) :
    readRecord header number (Word32.encode file.name.length ++ file.name ++ Word32.encode start ++
        Word32.encode file.content.length ++ more) =
      .ok (⟨path, header.dataBase + start, file.content.length⟩, more) := by
  generalize texts : file.name ++ (Word32.encode start ++ (Word32.encode file.content.length ++ more)) =
    rest
  have whole : Word32.encode file.name.length ++ file.name ++ Word32.encode start ++
      Word32.encode file.content.length ++ more = Word32.encode file.name.length ++ rest := by
    simp only [← texts, List.append_assoc]
  have nameLength : wordAt (Word32.encode file.name.length ++ rest) 0 = file.name.length :=
    wordAt_encode name [] rest
  have behind : (Word32.encode file.name.length ++ rest).drop 4 = rest := rfl
  have enough : file.name.length + 8 + more.length = rest.length := by
    rw [← texts]
    simp only [List.length_append, Word32.length_encode]
    omega
  have nameText : rest.take file.name.length = file.name := by
    rw [← texts, List.take_left]
  have offset : wordAt rest file.name.length = start := by
    rw [← texts]
    exact wordAt_encode (by omega) file.name _
  have length : wordAt rest (file.name.length + 4) = file.content.length := by
    have front : (file.name ++ Word32.encode start).length = file.name.length + 4 := by
      rw [List.length_append, Word32.length_encode]
    rw [← texts, ← List.append_assoc, ← front]
    exact wordAt_encode (by omega) _ more
  have past : rest.drop (file.name.length + 8) = more := by
    have front : (file.name ++ Word32.encode start ++ Word32.encode file.content.length).length =
        file.name.length + 8 := by
      rw [List.length_append, List.length_append, Word32.length_encode, Word32.length_encode]
    rw [← texts, ← front, ← List.append_assoc, ← List.append_assoc, List.drop_left]
  have long : ¬(Word32.encode file.name.length ++ rest).length < 4 := by
    rw [List.length_append, Word32.length_encode]
    omega
  rw [whole, readRecord, if_neg long, nameLength, behind, if_neg (by omega), nameText, offset,
    length, past, if_neg (by omega), found]

theorem readRecords_index {header : Header} {files : List File} {start : Nat} (number : Nat)
    (named : ∀ file ∈ files, Path.canonical? file.name ≠ none)
    (small : (index start files).length < Word32.size)
    (inside : start + (data files).length ≤ header.dataLength)
    (fits : header.dataLength < Word32.size) :
    readRecords header files.length number (index start files) =
      .ok (entriesFrom header.dataBase start files) := by
  induction files generalizing start number with
  | nil => rfl
  | cons file files ih =>
    obtain ⟨safe, others⟩ := List.forall_mem_cons.mp named
    obtain ⟨path, found⟩ := Option.ne_none_iff_exists'.mp safe
    rw [length_index_cons] at small
    rw [length_data_cons] at inside
    have path_eq : file.path = path := by
      rw [File.path, found]
      rfl
    have first := @readRecord_encode header file start path number
      (index (start + file.content.length) files) found (by omega) (by omega) (by omega)
    have rest := @ih (start + file.content.length) (number + 1) others (by omega) (by omega)
    rw [List.length_cons, readRecords, index, first]
    refine bind_eq_ok.mpr ⟨_, rfl, bind_eq_ok.mpr ⟨_, rest, ?_⟩⟩
    rw [entriesFrom, path_eq]

/-- An entry that gives a file back: it has the path that the file's name stands for and the kind
of that path, and its range lies inside the container and holds the content. -/
structure Entry.Delivers (bytes : Bytes) (entry : Entry) (file : File) : Prop where
  path : Path.canonical? file.name = some entry.path
  kind : (Path.canonical? file.name).map ContentKind.ofPath = some entry.kind
  length : entry.length = file.content.length
  inside : entry.offset + entry.length ≤ bytes.length
  content : entry.content bytes = file.content

theorem File.path_eq {file : File} {path : Bytes} (found : Path.canonical? file.name = some path) :
    file.path = path := by
  rw [File.path, found]
  rfl

theorem Entry.delivers_of_place {file : File} {front behind : Bytes}
    (named : Path.canonical? file.name ≠ none) :
    (Entry.mk file.path front.length file.content.length).Delivers
      (front ++ (file.content ++ behind)) file := by
  obtain ⟨path, found⟩ := Option.ne_none_iff_exists'.mp named
  have path_eq := File.path_eq found
  refine ⟨?path, ?kind, rfl, ?inside, ?content⟩
  case path =>
    rw [path_eq, found]
  case kind =>
    rw [found, Option.map_some, Entry.kind, path_eq]
  case inside =>
    simp only [List.length_append]
    omega
  case content =>
    rw [Entry.content, List.drop_left, List.take_left]

theorem delivers_entriesFrom {front behind : Bytes} {files : List File} {dataBase start : Nat}
    (named : ∀ file ∈ files, Path.canonical? file.name ≠ none)
    (place : front.length = dataBase + start) :
    List.Forall₂ (Entry.Delivers (front ++ (data files ++ behind)))
      (entriesFrom dataBase start files) files := by
  induction files generalizing start front with
  | nil => exact .nil
  | cons file files ih =>
    obtain ⟨safe, others⟩ := List.forall_mem_cons.mp named
    have rest := @ih (front ++ file.content) (start + file.content.length) others (by
      rw [List.length_append, place, Nat.add_assoc])
    have whole : front ++ (data (file :: files) ++ behind) =
        front ++ (file.content ++ (data files ++ behind)) := by
      rw [data, List.flatMap_cons, ← data, List.append_assoc]
    rw [entriesFrom, whole]
    apply List.Forall₂.cons
    · rw [← place]
      exact Entry.delivers_of_place safe
    · rw [← List.append_assoc]
      exact rest

theorem length_le_index (start : Nat) (files : List File) :
    12 * files.length ≤ (index start files).length := by
  induction files generalizing start with
  | nil => exact Nat.zero_le _
  | cons file files ih =>
    have others := ih (start + file.content.length)
    rw [length_index_cons, List.length_cons]
    omega

/-- The front of a written container: the first mark and the three words of its header. -/
def opening (files : List File) : Bytes :=
  firstMark :: (Word32.encode (index 0 files).length ++ Word32.encode (data files).length ++
    Word32.encode files.length)

/-- The entries of a written container, counted from the start of its data section. -/
def entriesOf (files : List File) : List Entry :=
  entriesFrom (headerLength + (index 0 files).length + 1) 0 files

private theorem length_opening (files : List File) : (opening files).length = headerLength := rfl

theorem encode_append (files : List File) (behind : Bytes) :
    encode files ++ behind =
      opening files ++ (index 0 files ++ ([lastMark] ++ (data files ++ behind))) := by
  rw [encode, opening]
  simp

private theorem Packable.length_lt {files : List File} (packable : Packable files) :
    files.length < Word32.size := by
  have number := length_le_index 0 files
  have small := packable.index
  omega

private theorem read_opening {files : List File} (packable : Packable files) (rest : Bytes) :
    Header.read (opening files ++ rest) =
      ⟨(index 0 files).length, (data files).length, files.length⟩ := by
  have whole : opening files ++ rest = [firstMark] ++ (Word32.encode (index 0 files).length ++
      (Word32.encode (data files).length ++ (Word32.encode files.length ++ rest))) := by
    rw [opening]
    simp
  have first : wordAt (opening files ++ rest) 1 = (index 0 files).length := by
    rw [whole]
    exact wordAt_encode packable.index [firstMark] _
  have second : wordAt (opening files ++ rest) 5 = (data files).length := by
    rw [whole, ← List.append_assoc]
    exact wordAt_encode packable.data ([firstMark] ++ Word32.encode (index 0 files).length) _
  have third : wordAt (opening files ++ rest) 9 = files.length := by
    rw [whole, ← List.append_assoc, ← List.append_assoc]
    exact wordAt_encode packable.length_lt
      ([firstMark] ++ Word32.encode (index 0 files).length ++ Word32.encode (data files).length) _
  rw [Header.read, first, second, third]

theorem parse_encode_append {limit : Nat} {files : List File} (packable : Packable files)
    (count : files.length ≤ limit) (behind : Bytes) :
    parse limit (encode files ++ behind) = .ok (entriesOf files) := by
  have number := length_le_index 0 files
  have records := fun header =>
    @readRecords_index header files 0 0 packable.named packable.index
  have header := read_opening packable (index 0 files ++ ([lastMark] ++ (data files ++ behind)))
  have sections := encode_append files behind
  have marked : (encode files ++ behind).head? = some firstMark := rfl
  rw [← sections] at header
  have size : (encode files ++ behind).length =
      headerLength + (index 0 files).length + 1 + (data files).length + behind.length := by
    rw [sections]
    simp only [List.length_append, length_opening, List.length_singleton]
    omega
  have last : (encode files ++ behind)[headerLength + (index 0 files).length]? = some lastMark := by
    rw [sections, ← List.append_assoc, List.getElem?_append_right] <;>
      simp [length_opening]
  have tableText :
      ((encode files ++ behind).drop headerLength).take (index 0 files).length = index 0 files := by
    rw [sections, ← length_opening files, List.drop_left, List.take_left]
  rw [parse, if_neg (by omega), if_neg (Decidable.not_not.mpr marked)]
  simp only [header]
  rw [if_neg (by omega), if_neg (by rw [shortestRecord]; omega),
    if_neg (by rw [Header.dataBase]; dsimp only; omega), if_neg (Decidable.not_not.mpr last), tableText,
    records _ (Nat.le_of_eq (Nat.zero_add _)) packable.data, entriesOf, Header.dataBase]

theorem delivers_entriesOf {files : List File} (packable : Packable files) (behind : Bytes) :
    List.Forall₂ (Entry.Delivers (encode files ++ behind)) (entriesOf files) files := by
  have place : (opening files ++ index 0 files ++ [lastMark]).length =
      headerLength + (index 0 files).length + 1 + 0 := by
    simp only [List.length_append, length_opening, List.length_singleton]
  have delivered := @delivers_entriesFrom _ behind _ _ _ packable.named place
  rw [encode_append, entriesOf]
  simpa only [List.append_assoc] using delivered

/-- The entries of a written container are its files, path for path and content for content. -/
theorem parse_encode {limit : Nat} {files : List File} (packable : Packable files)
    (count : files.length ≤ limit) :
    ∃ entries, parse limit (encode files) = .ok entries ∧
      entries.map (fun entry => (entry.path, entry.content (encode files))) =
        files.map fun file => (file.path, file.content) := by
  have parsed := parse_encode_append packable count []
  have delivered := delivers_entriesOf packable []
  rw [List.append_nil] at parsed delivered
  refine ⟨entriesOf files, parsed, ?_⟩
  rw [← List.forall₂_eq_eq_eq, List.forall₂_map_left_iff, List.forall₂_map_right_iff]
  apply delivered.imp
  intro entry file delivers
  rw [File.path_eq delivers.path, delivers.content]

/-- Reading a written container gives every file back: one entry for each, in order, under the path
of its name, of the kind of that path, and with its content byte for byte, whatever follows. -/
theorem entries_of_encode {limit : Nat} {files : List File} (packable : Packable files)
    (count : files.length ≤ limit) (behind : Bytes) :
    ∃ entries, parse limit (encode files ++ behind) = .ok entries ∧
      List.Forall₂ (Entry.Delivers (encode files ++ behind)) entries files :=
  ⟨entriesOf files, parse_encode_append packable count behind, delivers_entriesOf packable behind⟩

/-- Files with a name twice, names that are not yet paths and a content that is empty. -/
def sampleFiles : List File :=
  [⟨utf8 "/pages//a.js", utf8 "x"⟩, ⟨utf8 "\\pages\\./a.js", []⟩, ⟨utf8 "..a/b", utf8 "yz"⟩,
    ⟨utf8 "/pages//a.js", utf8 "x"⟩]

private theorem packable_sampleFiles : Packable sampleFiles where
  named := by decide
  index := by decide
  data := by decide

/-- All four files come back although more bytes follow. -/
theorem entries_of_encode_sample :
    Packable sampleFiles ∧ sampleFiles.length ≤ 4 ∧
      ∃ entries, parse 4 (encode sampleFiles ++ utf8 "more") = .ok entries ∧
        List.Forall₂ (Entry.Delivers (encode sampleFiles ++ utf8 "more")) entries sampleFiles :=
  ⟨packable_sampleFiles, Nat.le_refl 4,
    entries_of_encode packable_sampleFiles (Nat.le_refl 4) (utf8 "more")⟩

end Unbundle.Container
