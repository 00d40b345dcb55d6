import OmegaHarness.FileTree

/-!
# Files which are read and written as texts

A whole file is replaced by one text, or read as one. A text is stored as its UTF-8 bytes,
so a file has at most one text, and a file whose bytes are no text cannot be read as one.
-/
namespace OmegaHarness.TextFiles
open FileTree

def textBytes (text : String) : List UInt8 := text.toUTF8.toList

/-- The message of an error, as the operating system words it. -/
def errorText : IoError → String
  | .notFound => "No such file or directory (os error 2)"
  | .alreadyExists => "File exists (os error 17)"
  | .notADirectory => "Not a directory (os error 20)"
  | .isADirectory => "Is a directory (os error 21)"
  | .fileTooLarge => "File too large (os error 27)"

/-- Create an empty file, or empty the one which is there. -/
def create (files : Files) (path : Path) : Except IoError Files :=
  match files path with
  | some (.file _) => .ok (set files path (some (.file [])))
  | some .dir => .error .isADirectory
  | none => createNew files path

/-- Replace a file by the given bytes. A write which fails leaves what it had written. -/
def write (files : Files) (path : Path) (bytes : List UInt8) : Except IoError Unit × Files :=
  match create files path with
  | .error e => (.error e,files)
  | .ok created => writeAll created path bytes

def readToString (files : Files) (path : Path) : Except String String :=
  match readFile files path with
  | .error e => .error (errorText e)
  | .ok bytes => match String.fromUTF8? ⟨bytes.toArray⟩ with
    | none => .error "stream did not contain valid UTF-8"
    | some text => .ok text

theorem toList_loop (bytes : ByteArray) (i : ℕ) (r : List UInt8) :
    ByteArray.toList.loop bytes i r = r.reverse++bytes.data.toList.drop i := by
  fun_induction ByteArray.toList.loop bytes i r with
  | case1 i r h ih =>
      have hi : i < bytes.data.toList.length := h
      rw [ih,List.drop_eq_getElem_cons hi,List.reverse_cons,List.append_assoc]
      have hget : bytes.get! i = bytes.data.toList[i] := by
        simp [ByteArray.get!,getElem!_pos bytes.data i h]
      rw [hget]
      rfl
  | case2 i r h =>
      have hi : bytes.data.toList.length ≤ i := Nat.le_of_not_lt h
      rw [List.drop_eq_nil_of_le hi,List.append_nil]

theorem byteArray_toList (bytes : ByteArray) : bytes.toList = bytes.data.toList := by
  rw [ByteArray.toList,toList_loop]
  rfl

section Reads
variable {files files' : Files} {path p : Path} {text : String} {bytes : List UInt8}

theorem readToString_ok :
    readToString files path = .ok text ↔ content files path = some (textBytes text) := by
  rw [← readFile_content,readToString]
  cases readFile files path with
  | error e => exact ⟨nofun,nofun⟩
  | ok bytes =>
      dsimp only
      rw [Except.ok.injEq]
      constructor
      · intro h
        split at h
        · cases h
        · next found hfound =>
            cases h
            rw [String.fromUTF8?] at hfound
            split at hfound
            · cases hfound
              rw [textBytes,byteArray_toList]
              rfl
            · cases hfound
      · intro h
        have htext : (⟨bytes.toArray⟩ : ByteArray) = text.toUTF8 := by
          rw [h,textBytes,byteArray_toList]
        have hvalid : text.toUTF8.IsValidUTF8 := text.isValidUTF8
        rw [htext,String.fromUTF8?,dif_pos hvalid]
        rfl

theorem create_ok (h : create files path = .ok files') :
    files' = set files path (some (.file [])) := by
  rw [create] at h
  split at h
  · cases h
    rfl
  · cases h
  · exact createNew_ok h

/-- A write which succeeded left the bytes and nothing else. -/
theorem write_ok (h : write files path bytes = (.ok (),files')) :
    files' = set files path (some (.file bytes)) := by
  rw [write] at h
  split at h
  · cases h
  · next created hcreated =>
      rw [create_ok hcreated] at h
      rw [(writeAll_ok (set_same _) h).2,set_set]
      rfl

theorem write_absent (habsent : files path = none) (hparent : files path.dropLast = some .dir)
    (hfits : bytes.length ≤ maxFileBytes) :
    write files path bytes = (.ok (),set files path (some (.file bytes))) := by
  rw [write,create,habsent]
  dsimp only
  rw [createNew_absent habsent hparent]
  dsimp only
  have hempty : ([] : List UInt8).length+bytes.length ≤ maxFileBytes := by simpa using hfits
  rw [writeAll_file (set_same _) hempty,set_set]
  rfl

end Reads

end OmegaHarness.TextFiles
