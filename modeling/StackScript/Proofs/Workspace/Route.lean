import StackScript.Proofs.Text.Trim
import StackScript.Workspace.Endpoint

/-!
# How Routes Are Written

People write one route in many ways: with or without a slash at either end, with
a parameter in braces or behind a colon, with blanks where they do no harm. The
pattern of a route is what all of these share.

`IsRouteOf` says which texts are a route, from its segments: each of them may
carry the marks of a parameter or not, and what stands between them is any
mixture of slashes and blanks with a slash in it. The reader of routes goes from
slash to slash and strips what it finds. Slashes and blanks around a text make
no difference to that, `plainSegments_between`, and this is the whole argument:
each segment is found on its own, and a slash keeps it apart from the others.

## Main definitions

* `IsRouteSegment`: A segment of a route.
* `IsWrittenAs`: The ways to write a segment.
* `IsRouteOf`: The texts that are a route.
* `plainSegments`: The segments that are read from a text.

## Theorems

* `plainSegments_slash`: A text is read from slash to slash.
* `plainSegments_between`: Slashes and blanks around a text make no difference.
* `plainSegments_of_isRouteOf`: The segments of a route are read from it.
* `routePattern_of_isRouteOf`: All texts that are a route have one pattern.
-/

namespace StackScript

/-- The characters that may stand around the segments of a route. -/
def IsFiller (c : Char) : Prop :=
  c = '/' ∨ Unicode.isBlank c

instance (c : Char) : Decidable (IsFiller c) :=
  inferInstanceAs (Decidable (_ ∨ _))

/-- A segment of a route, without the marks of a parameter. -/
structure IsRouteSegment (segment : List Char) : Prop where
  /-- It is not empty. -/
  ne_nil : segment ≠ []
  /-- It has none of the characters that mean something in a route. -/
  unmarked : ∀ c ∈ segment, c ∉ ['/', '{', '}', ':']
  /-- It has no blanks around it. -/
  trimmed : Text.IsTrimmed segment

/-- The ways to write a segment: as it is, or as the name of a parameter. -/
inductive IsWrittenAs (segment : List Char) : List Char → Prop where
  | bare : IsWrittenAs segment segment
  | braced : IsWrittenAs segment ('{' :: segment ++ ['}'])
  | colon : IsWrittenAs segment (':' :: segment)

/-- The text is a route with these segments. There may be slashes and blanks
    around each of them, and a slash between two. -/
inductive IsRouteOf : List (List Char) → List Char → Prop where
  | last {segment written front behind : List Char} (hfront : ∀ c ∈ front, IsFiller c)
      (hwritten : IsWrittenAs segment written) (hbehind : ∀ c ∈ behind, IsFiller c) :
      IsRouteOf [segment] (front ++ written ++ behind)
  | cons {segment written front behind : List Char} {segments : List (List Char)}
      {route : List Char} (hfront : ∀ c ∈ front, IsFiller c)
      (hwritten : IsWrittenAs segment written) (hbehind : ∀ c ∈ behind, IsFiller c)
      (hroute : IsRouteOf segments route) :
      IsRouteOf (segment :: segments) (front ++ written ++ behind ++ '/' :: route)

/-- The segments that are read from a text, without parameter marks. -/
def plainSegments (route : List Char) : List (List Char) :=
  ((route.splitOn '/').map plainSegment).filter (· ≠ [])

-- A pattern is the segments of a route put together.
theorem routePattern_eq (route : String) :
    routePattern route =
      Unicode.lowerText (String.ofList (List.intercalate ['_'] (plainSegments route.toList))) :=
  rfl

/-! ## From slash to slash -/

/-- A route may be cut at a slash. -/
theorem plainSegments_slash (front behind : List Char) :
    plainSegments (front ++ '/' :: behind) = plainSegments front ++ plainSegments behind := by
  rw [plainSegments, List.splitOn_append_cons_self, List.map_append, List.filter_append]
  rfl

-- Without a slash it is one segment or none.
theorem plainSegments_of_notMem {cs : List Char} (h : '/' ∉ cs) :
    plainSegments cs = [plainSegment cs].filter (· ≠ []) := by
  rw [plainSegments, List.splitOn_eq_singleton h]
  rfl

-- Blanks around a segment are no part of it.
theorem plainSegment_cons_blank {c : Char} (h : Unicode.isBlank c) (cs : List Char) :
    plainSegment (c :: cs) = plainSegment cs := by
  rw [plainSegment, Text.trim_cons_blank h, plainSegment]

theorem plainSegment_append_blank {c : Char} (h : Unicode.isBlank c) (cs : List Char) :
    plainSegment (cs ++ [c]) = plainSegment cs := by
  rw [plainSegment, Text.trim_append_blank h, plainSegment]

theorem slash_ne_blank {c : Char} (h : Unicode.isBlank c) : '/' ≠ c := by
  rintro rfl
  exact absurd h (by decide)

/-- A blank belongs to the first segment or to the last one, and does not matter there. -/
theorem plainSegments_cons_filler {c : Char} (h : IsFiller c) (cs : List Char) :
    plainSegments (c :: cs) = plainSegments cs := by
  rcases h with rfl | hblank
  · exact plainSegments_slash [] cs
  · have hfree {first : List Char} (hfirst : '/' ∉ first) :
        plainSegments (c :: first) = plainSegments first := by
      have hfirst' : '/' ∉ c :: first :=
        List.not_mem_cons_of_ne_of_not_mem (slash_ne_blank hblank) hfirst
      rw [plainSegments_of_notMem hfirst', plainSegments_of_notMem hfirst,
        plainSegment_cons_blank hblank]
    by_cases hslash : '/' ∈ cs
    · rcases List.eq_append_cons_of_mem hslash with ⟨first, others, rfl, hfirst⟩
      rw [← List.cons_append, plainSegments_slash, plainSegments_slash, hfree hfirst]
    · exact hfree hslash

/-- A slash or a blank at the end makes no difference. -/
theorem plainSegments_append_filler {c : Char} (h : IsFiller c) (cs : List Char) :
    plainSegments (cs ++ [c]) = plainSegments cs := by
  rcases h with rfl | hblank
  · rw [plainSegments_slash]
    exact List.append_nil _
  · have hfree {last : List Char} (hlast : '/' ∉ last) :
        plainSegments (last ++ [c]) = plainSegments last := by
      have hlast' : '/' ∉ last ++ [c] := by
        rw [List.mem_append, List.mem_singleton]
        exact fun hmem => hmem.elim hlast (slash_ne_blank hblank)
      rw [plainSegments_of_notMem hlast', plainSegments_of_notMem hlast,
        plainSegment_append_blank hblank]
    -- A blank belongs to the last segment, so the route is cut at its last slash.
    by_cases hslash : '/' ∈ cs
    · rcases List.eq_append_cons_of_mem (List.mem_reverse.mpr hslash) with
        ⟨last, others, hcut, hlast⟩
      have hcs : cs = others.reverse ++ '/' :: last.reverse := by
        rw [← List.reverse_reverse cs, hcut, List.reverse_append, List.reverse_cons,
          List.append_assoc]
        rfl
      rw [hcs, List.append_assoc, List.cons_append, plainSegments_slash, plainSegments_slash,
        hfree (by rwa [List.mem_reverse])]
    · exact hfree hslash

/-- Slashes and blanks around a text make no difference to the segments that are
    read from it. -/
theorem plainSegments_between {front behind : List Char} (hfront : ∀ c ∈ front, IsFiller c)
    (hbehind : ∀ c ∈ behind, IsFiller c) (cs : List Char) :
    plainSegments (front ++ cs ++ behind) = plainSegments cs :=
  Text.eq_between (fun _ h cs => plainSegments_cons_filler h cs)
    (fun _ h cs => plainSegments_append_filler h cs) hfront hbehind cs

theorem plainSegments_of_fillers {cs : List Char} (h : ∀ c ∈ cs, IsFiller c) :
    plainSegments cs = [] := by
  have hnone := plainSegments_between h (List.forall_mem_nil _) []
  rwa [List.append_nil, List.append_nil] at hnone

/-! ## One segment -/

section Segment

variable {segment written : List Char}

-- No character that means something in a route is at an end of a segment.
theorem IsRouteSegment.head?_any (h : IsRouteSegment segment) {p : Char → Bool}
    (hp : ∀ c, p c = true → c ∈ ['/', '{', '}', ':']) : segment.head?.any p = false := by
  rw [Option.any_eq_false]
  exact fun c hc => Bool.eq_false_iff.mpr fun hpc => h.unmarked c (List.mem_of_head? hc) (hp c hpc)

/-- A segment neither begins nor ends with a mark. -/
theorem IsRouteSegment.getLast?_any (h : IsRouteSegment segment) {p : Char → Bool}
    (hp : ∀ c, p c = true → c ∈ ['/', '{', '}', ':']) : segment.getLast?.any p = false := by
  rw [Option.any_eq_false]
  exact fun c hc =>
    Bool.eq_false_iff.mpr fun hpc => h.unmarked c (List.mem_of_getLast? hc) (hp c hpc)

theorem mark_of_colon (c : Char) (h : decide (c = ':') = true) : c ∈ ['/', '{', '}', ':'] := by
  rw [of_decide_eq_true h]
  decide

theorem mark_of_brace (c : Char) (h : (c = '{' || c = '}') = true) :
    c ∈ ['/', '{', '}', ':'] := by
  rcases Bool.or_eq_true_iff.mp h with h | h
  · rw [of_decide_eq_true h]
    decide
  · rw [of_decide_eq_true h]
    decide

/-- A segment is read from each of the ways to write it. -/
theorem plainSegment_of_isWrittenAs (h : IsRouteSegment segment)
    (hwritten : IsWrittenAs segment written) : plainSegment written = segment := by
  have hbraces := Text.trimBy_of_ends (h.head?_any mark_of_brace) (h.getLast?_any mark_of_brace)
  have hcolon := Text.dropWhile_of_head (h.head?_any mark_of_colon)
  unfold plainSegment
  -- Whichever marks were put around the segment are stripped, and nothing else.
  cases hwritten with
  | bare => rw [Text.trim_of_isTrimmed h.trimmed, hcolon, hbraces]
  | braced =>
      have htrimmed : Text.IsTrimmed ('{' :: segment ++ ['}']) :=
        ⟨rfl, by rw [List.getLast?_concat]; rfl⟩
      rw [Text.trim_of_isTrimmed htrimmed, List.cons_append,
        List.dropWhile_cons_of_neg (by decide), Text.trimBy_cons (by decide),
        Text.trimBy_append (by decide), hbraces]
  | colon =>
      have htrimmed : Text.IsTrimmed (':' :: segment) := by
        refine ⟨rfl, ?_⟩
        rw [List.getLast?_cons_of_ne_nil h.ne_nil]
        exact h.trimmed.last
      rw [Text.trim_of_isTrimmed htrimmed, List.dropWhile_cons_of_pos (by decide), hcolon, hbraces]

/-- The marks of a parameter have no slash. -/
theorem slash_notMem_of_isWrittenAs (h : IsRouteSegment segment)
    (hwritten : IsWrittenAs segment written) : '/' ∉ written := by
  have hsegment : '/' ∉ segment := fun hmem => h.unmarked '/' hmem (by decide)
  cases hwritten with
  | bare => exact hsegment
  | braced => simpa using hsegment
  | colon => simpa using hsegment

/-- A segment is all that is read from a way to write it. -/
theorem plainSegments_of_isWrittenAs (h : IsRouteSegment segment)
    (hwritten : IsWrittenAs segment written) : plainSegments written = [segment] := by
  rw [plainSegments_of_notMem (slash_notMem_of_isWrittenAs h hwritten),
    plainSegment_of_isWrittenAs h hwritten,
    List.filter_cons_of_pos (by simpa using h.ne_nil), List.filter_nil]

end Segment

/-! ## A whole route -/

/-- A route has a segment. -/
theorem IsRouteOf.ne_nil {segments : List (List Char)} {route : List Char}
    (h : IsRouteOf segments route) : segments ≠ [] := by
  cases h with
  | last => exact List.cons_ne_nil _ _
  | cons => exact List.cons_ne_nil _ _

/-- The segments of a route are read from it, however it is written. -/
theorem plainSegments_of_isRouteOf {segments : List (List Char)} {route : List Char}
    (h : IsRouteOf segments route) (hsegments : ∀ segment ∈ segments, IsRouteSegment segment) :
    plainSegments route = segments := by
  induction h with
  | last hfront hwritten hbehind =>
      rw [plainSegments_between hfront hbehind,
        plainSegments_of_isWrittenAs (hsegments _ (.head _)) hwritten]
  | cons hfront hwritten hbehind hroute ih =>
      rw [plainSegments_slash, plainSegments_between hfront hbehind,
        plainSegments_of_isWrittenAs (hsegments _ (.head _)) hwritten,
        ih fun segment hsegment => hsegments segment (.tail _ hsegment)]
      rfl

theorem routePattern_of_isRouteOf {segments : List (List Char)} {route : String}
    (h : IsRouteOf segments route.toList)
    (hsegments : ∀ segment ∈ segments, IsRouteSegment segment) :
    routePattern route = Unicode.lowerText (String.ofList (List.intercalate ['_'] segments)) := by
  rw [routePattern_eq, plainSegments_of_isRouteOf h hsegments]

end StackScript
