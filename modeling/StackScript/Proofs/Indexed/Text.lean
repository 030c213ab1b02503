import StackScript.Proofs.Indexed.Scan
import StackScript.Proofs.Source.LineIndex
import StackScript.Proofs.Text.Path

/-!
# Texts Cut at Byte Offsets

A program that keeps a text as its bytes cuts it at byte offsets, and a cut must
not go through a character. Two texts are cut this way. A literal loses its last
byte, which is its closing quote, and a path is cut at the last dot of the file
name, or by the length of the extension.

Each offset is the length of what stands in front of the cut, so the pieces are
named first and the offset is then seen to lie between them, `textUpTo_append`.

## Main definitions

* `textUpTo`: The text in front of a byte offset.
* `lastOffset`: The offset of the last character of a kind.
* `Indexed.unquote`, `Indexed.fileStem`, `Indexed.stripExtension`: The readers of
  texts, with checked cuts.

## Theorems

* `unquote_eq`: What a literal stands for.
* `fileStem_eq`, `stripExtension_eq`: The parts of a path.
-/

namespace StackScript

namespace Indexed

/-- The text in front of a byte offset, which must not be inside of a character. -/
def textUpTo (cs : List Char) (offset : Nat) : Checked (List Char) :=
  (charsInBytes offset cs).map cs.take

/-- The text without its last byte. -/
def withoutLastByte (cs : List Char) : Checked (List Char) := do
  let offset ← checkedSub (byteLength cs) 1
  textUpTo cs offset

/-- The text behind an opening quote without its closing quote, if it has one. -/
def dropClosing (quote : Char) (body : List Char) : Checked (List Char) :=
  if body.getLast? = some quote then do
    let front ← withoutLastByte body
    if Text.escapesNext front.reverse then return body else withoutLastByte body
  else
    return body

/-- The text that a literal stands for. -/
def unquoteChars : List Char → Checked (List Char)
  | [] => return []
  | c :: body =>
      if c = '"' || c = '\'' then do
        let inside ← dropClosing c body
        return Text.unescape inside
      else
        return c :: body

/-- The text that a literal stands for. -/
def unquote (literal : String) : Checked String := do
  let text ← unquoteChars literal.toList
  return String.ofList text

/-- The byte offset of the last `c` in a text that begins at `offset`. -/
def lastOffset (c : Char) (offset : Nat) : List Char → Option Nat
  | [] => none
  | d :: cs => (lastOffset c (offset + d.utf8Size) cs).or (if d = c then some offset else none)

/-- The file name without its last extension. -/
def fileStemChars (path : List Char) : Checked (List Char) :=
  let name := Text.fileNameChars path
  match lastOffset '.' 0 name with
  | none => return name
  | some 0 => return name
  | some dot => textUpTo name dot

/-- The path without the extension of its last segment. -/
def stripExtensionChars (path : List Char) : Checked (List Char) := do
  let stem ← fileStemChars path
  let extension ← checkedSub (byteLength (Text.fileNameChars path)) (byteLength stem)
  let offset ← checkedSub (byteLength path) extension
  textUpTo path offset

/-- The file name without its last extension. -/
def fileStem (path : String) : Checked String := do
  let stem ← fileStemChars path.toList
  return String.ofList stem

/-- The path without the extension of its last segment. -/
def stripExtension (path : String) : Checked String := do
  let text ← stripExtensionChars path.toList
  return String.ofList text

/-! ## Literals -/

-- A cut behind a piece is at its length.
theorem textUpTo_append (cs ds : List Char) : textUpTo (cs ++ ds) (byteLength cs) = some cs := by
  rw [textUpTo, charsInBytes_append, Option.map_some, List.take_left]

/-- A last character of one byte can be cut off. -/
theorem withoutLastByte_append (cs : List Char) {c : Char} (hc : c.utf8Size = 1) :
    withoutLastByte (cs ++ [c]) = some cs := by
  have hlength : byteLength (cs ++ [c]) = byteLength cs + 1 := by
    rw [byteLength_append, byteLength_cons, byteLength_nil, hc]
  rw [withoutLastByte, hlength, checkedSub, if_pos (Nat.le_add_left _ _), Nat.add_sub_cancel]
  exact textUpTo_append cs [c]

/-- The closing quote is cut off alike, if it is one and not escaped. -/
theorem dropClosing_eq {quote : Char} (hquote : quote.utf8Size = 1) (body : List Char) :
    dropClosing quote body = some (Text.dropClosing quote body) := by
  rcases List.eq_nil_or_concat body with rfl | ⟨front, c, hbody⟩
  · rfl
  rw [dropClosing, Text.dropClosing, hbody, List.concat_eq_append, List.getLast?_concat,
    List.reverse_append, List.reverse_singleton, List.singleton_append]
  by_cases hc : c = quote
  · subst hc
    rw [if_pos rfl, withoutLastByte_append front hquote, Checked.bind_some]
    cases hescape : Text.escapesNext front.reverse with
    | true => simp [hescape]
    | false => simp [hescape]
  · rw [if_neg fun h => hc (Option.some.inj h)]
    simp [hc]

/-- A quote is one byte long. -/
theorem unquote_eq (literal : String) : unquote literal = some (Text.unquote literal) := by
  have hchars : ∀ cs, unquoteChars cs = some (Text.unquoteChars cs) := by
    intro cs
    cases cs with
    | nil => rfl
    | cons c body =>
        rw [unquoteChars, Text.unquoteChars]
        by_cases hquote : c = '"' ∨ c = '\''
        · have hsize : c.utf8Size = 1 := by rcases hquote with rfl | rfl <;> rfl
          rw [if_pos (by simpa using hquote), if_pos (by simpa using hquote),
            dropClosing_eq hsize]
          rfl
        · rw [if_neg (by simpa using hquote), if_neg (by simpa using hquote)]
          rfl
  rw [unquote, hchars]
  rfl

/-! ## Paths -/

/-- Without the character there is no offset. -/
theorem lastOffset_eq_none {c : Char} {cs : List Char} (h : c ∉ cs) (offset : Nat) :
    lastOffset c offset cs = none := by
  induction cs generalizing offset with
  | nil => rfl
  | cons d cs ih =>
      rw [List.mem_cons, not_or] at h
      rw [lastOffset, ih h.2, if_neg (Ne.symm h.1)]
      rfl

/-- The last one is behind everything else. -/
theorem lastOffset_append {c : Char} (front : List Char) {behind : List Char} (h : c ∉ behind)
    (offset : Nat) :
    lastOffset c offset (front ++ c :: behind) = some (offset + byteLength front) := by
  induction front generalizing offset with
  | nil =>
      rw [List.nil_append, lastOffset, lastOffset_eq_none h, if_pos rfl]
      rfl
  | cons d front ih =>
      rw [List.cons_append, lastOffset, ih, byteLength_cons, Nat.add_assoc]
      rfl

/-- A file name without its extension is cut at its last dot, unless the name
    begins with that dot. -/
theorem cutExtension_cases (name : List Char) :
    '.' ∉ name ∧ (Text.cutExtension name).1 = name ∨
      ∃ front extension, name = front ++ '.' :: extension ∧ '.' ∉ extension ∧
        (Text.cutExtension name).1 = if front = [] then name else front := by
  unfold Text.cutExtension
  cases hdrop : name.reverse.dropWhile (· ≠ '.') with
  | nil =>
      refine Or.inl ⟨fun hmem => ?_, by simp only [hdrop]⟩
      have hne := List.dropWhile_eq_nil_iff.mp hdrop _ (List.mem_reverse.mpr hmem)
      exact of_decide_eq_true hne rfl
  | cons c before =>
      -- The name is split at its last dot.
      rcases Text.exists_mark_of_dropWhile hdrop with ⟨-, hmark, hname⟩
      have hsplit := congrArg List.reverse hname
      rw [List.reverse_reverse, List.reverse_append, List.reverse_cons, List.append_assoc] at hsplit
      refine Or.inr ⟨before.reverse, (name.reverse.takeWhile (· ≠ '.')).reverse, hsplit, ?_, ?_⟩
      · rwa [List.mem_reverse]
      · cases before with
        | nil => simp only [hdrop, List.reverse_nil, if_pos]
        | cons d before =>
            simp only [hdrop]
            rw [if_neg (by simp)]

/-- A character has a byte at least. -/
theorem byteLength_ne_zero {cs : List Char} (h : cs ≠ []) : byteLength cs ≠ 0 := by
  cases cs with
  | nil => exact absurd rfl h
  | cons c cs =>
      have hsize := c.utf8Size_pos
      rw [byteLength_cons]
      omega

/-- A file name is cut at its last dot, unless that is its first character. -/
theorem fileStemChars_eq (path : List Char) :
    fileStemChars path = some (Text.fileStemChars path) := by
  rw [fileStemChars, Text.fileStemChars]
  rcases cutExtension_cases (Text.fileNameChars path) with
    ⟨hdot, hstem⟩ | ⟨front, extension, hname, hdot, hstem⟩
  · rw [hstem, lastOffset_eq_none hdot]
    rfl
  · rw [hstem, hname, lastOffset_append front hdot, Nat.zero_add]
    by_cases hfront : front = []
    · subst hfront
      rfl
    · rcases Nat.exists_eq_succ_of_ne_zero (byteLength_ne_zero hfront) with ⟨n, hn⟩
      have hcut := textUpTo_append front ('.' :: extension)
      rw [hn] at hcut ⊢
      rw [if_neg hfront]
      exact hcut

/-- A path is made up of its folder and its file name, and that of its stem and
    its extension. -/
theorem exists_parts (path : List Char) :
    ∃ folder extension, Text.fileNameChars path = Text.fileStemChars path ++ extension ∧
      path = folder ++ Text.fileNameChars path ∧
      Text.stripExtensionChars path = folder ++ Text.fileStemChars path := by
  rcases Text.cutExtension_prefix_name (Text.fileNameChars path) with ⟨extension, hname⟩
  exact ⟨Text.folderChars path, extension, hname.symm,
    (Text.folderChars_append_fileNameChars path).symm, Text.stripExtensionChars_eq path⟩

/-- A path is cut by the length of its extension, which is the end of it. -/
theorem stripExtensionChars_eq (path : List Char) :
    stripExtensionChars path = some (Text.stripExtensionChars path) := by
  rcases exists_parts path with ⟨folder, extension, hname, hpath, hstripped⟩
  have hlength := congrArg byteLength hpath
  have hlength' := congrArg byteLength hname
  rw [byteLength_append] at hlength hlength'
  -- The offset is the length of what is in front of the extension.
  have hoffset : byteLength path - byteLength extension =
      byteLength (folder ++ Text.fileStemChars path) := by
    rw [byteLength_append]
    omega
  have hcut : textUpTo path (byteLength (folder ++ Text.fileStemChars path)) =
      some (folder ++ Text.fileStemChars path) := by
    have h := textUpTo_append (folder ++ Text.fileStemChars path) extension
    rwa [List.append_assoc, ← hname, ← hpath] at h
  rw [stripExtensionChars, fileStemChars_eq, Checked.bind_some, checkedSub,
    if_pos (by omega), Checked.bind_some, checkedSub, hlength',
    Nat.add_sub_cancel_left, if_pos (by omega), Checked.bind_some, hoffset, hcut, hstripped]

theorem fileStem_eq (path : String) : fileStem path = some (Text.fileStem path) := by
  rw [fileStem, fileStemChars_eq]
  rfl

theorem stripExtension_eq (path : String) :
    stripExtension path = some (Text.stripExtension path) := by
  rw [stripExtension, stripExtensionChars_eq]
  rfl

end Indexed

end StackScript
