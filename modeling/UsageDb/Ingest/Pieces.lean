import UsageDb.Ingest.WalFile

/-!
# Files with pieces of lines

When writes fail or are torn, a log file is a sequence of pieces: each begins a line, and
some do not finish it. `Pieces` is this shape. What is assumed of the JSON library beyond
`Serde.Lawful` is `Serde.Strict`: a piece of an event's text is not read as an event, and
neither are several pieces or texts one after another.

`Pieces.replayFile_batch` is what follows for a file of that shape: a batch written to it, in
whole or in part, adds at most its own events to what is read, each once and in order.
`Pieces.replayFile_torn` is the case of a write that breaks off inside the first line.
-/

namespace UsageDb

open Lib List

variable {p : Bytes}

/-- A piece of some texts: not empty, and a beginning of one of them. -/
def Serde.Piece (J : Serde) (U : Set UsageEvent) (p : Bytes) : Prop := p ≠ [] ∧ ∃ e ∈ U, p <+: J.bytes e

/-- What is assumed of the library about texts that are not whole, for the events of `U`. -/
structure Serde.Strict (J : Serde) (U : Set UsageEvent) : Prop extends J.Lawful U where
  /-- A piece of a text is not an event. -/
  piece : ∀ e ∈ U, ∀ p, p <+: J.bytes e → p ≠ J.bytes e → J.replayLine p = none
  /-- Neither are several pieces or texts one after another. -/
  glued : ∀ ps : List Bytes, (∀ p ∈ ps, J.Piece U p) → 2 ≤ ps.length → J.replayLine ps.flatten = none

/-- The file is a sequence of beginnings of lines, each of them finished or not. -/
inductive Pieces (J : Serde) (U : Set UsageEvent) : Bytes → Prop where
  /-- Nothing. -/
  | nil : Pieces J U []
  | line {b : Bytes} {e : UsageEvent} : Pieces J U b → e ∈ U → Pieces J U (b ++ J.line e)
  /-- A piece of a line, without its newline. -/
  | piece {b p : Bytes} {e : UsageEvent} : Pieces J U b → e ∈ U → p <+: J.bytes e → Pieces J U (b ++ p)

variable {J : Serde} {U : Set UsageEvent} {b : Bytes} {e : UsageEvent}

/-! ### The shape -/

theorem Pieces.batch (h : Pieces J U b) {es : List UsageEvent} (hes : ∀ e ∈ es, e ∈ U) :
    Pieces J U (b ++ J.batch es) := by
  induction es generalizing b with
  | nil => simpa [Serde.batch] using h
  | cons e es ih =>
    have hcons : b ++ J.batch (e :: es) = (b ++ J.line e) ++ J.batch es := by simp [Serde.batch]
    rw [hcons]
    exact ih (h.line (hes e (by simp))) fun e he => hes e (by simp [he])

/-- A beginning of a line is a piece of its text, or the line. -/
theorem prefix_line_cases (h : p <+: J.line e) : p <+: J.bytes e ∨ p = J.line e := by
  rw [Serde.line, prefix_concat_iff] at h
  exact h.symm

/-- A beginning of `b ++ x` is one of `b`, or goes on into `x`. -/
theorem prefix_append_cases {c x : Bytes} (h : c <+: b ++ x) : c <+: b ∨ ∃ p, c = b ++ p ∧ p <+: x := by
  obtain ⟨t, ht⟩ := h
  rcases append_eq_append_iff.1 ht with ⟨r, hr, -⟩ | ⟨r, hr, hx⟩
  · exact .inl ⟨r, hr.symm⟩
  · exact .inr ⟨r, hr, t, hx.symm⟩

/-- The beginnings of such a file are such files. -/
theorem Pieces.of_prefix (h : Pieces J U b) {c : Bytes} (hc : c <+: b) : Pieces J U c := by
  induction h generalizing c with
  | nil =>
    rw [prefix_nil.1 hc]
    exact .nil
  | @line b e hb he ih =>
    rcases prefix_append_cases hc with hc | ⟨p, rfl, hp⟩
    · exact ih hc
    · rcases prefix_line_cases hp with hp | rfl
      · exact hb.piece he hp
      · exact hb.line he
  | @piece b p e hb he hp ih =>
    rcases prefix_append_cases hc with hc | ⟨q, rfl, hq⟩
    · exact ih hc
    · exact hb.piece he (hq.trans hp)

/-- A piece has no newline in it. -/
theorem Serde.Lawful.newline_not_mem (hJ : J.Lawful U) (he : e ∈ U) (hp : p <+: J.bytes e) :
    UsageDb.newline ∉ p :=
  fun hmem => hJ.newline e he (hp.subset hmem)

/-- The unfinished line at the end consists of pieces. -/
theorem Pieces.rest (hJ : J.Lawful U) (h : Pieces J U b) :
    ∃ ps : List Bytes, (∀ p ∈ ps, J.Piece U p) ∧ ps.flatten = (cut newline b).rest := by
  induction h with
  | nil => exact ⟨[], by simp, rfl⟩
  | @line b e hb he ih =>
    refine ⟨[], by simp, ?_⟩
    rw [cut_append, Serde.line, cut_line (hJ.newline e he)]
    rfl
  | @piece b p e hb he hp ih =>
    obtain ⟨ps, hps, hrest⟩ := ih
    rw [cut_append, cut_of_not_mem (hJ.newline_not_mem he hp)]
    by_cases hnil : p = []
    · exact ⟨ps, hps, by simp [hnil, hrest, Cut.glue]⟩
    · refine ⟨ps ++ [p], ?_, by simp [hrest, Cut.glue]⟩
      intro q hq
      rcases mem_append.1 hq with hq | hq
      · exact hps q hq
      · rw [mem_singleton.1 hq]
        exact ⟨hnil, e, he, hp⟩

/-! ### What is read -/

/-- What is read from the complete lines of a file. -/
def Serde.replayLines (J : Serde) (b : Bytes) : List UsageEvent :=
  ((cut newline b).lines.map dropCr).filterMap J.replayLine

theorem Serde.replayFile_eq (J : Serde) (b : Bytes) :
    J.replayFile b = J.replayLines b ++ (J.replayLine (cut UsageDb.newline b).rest).toList := by
  have hempty : J.replayLine [] = none := by
    have hutf : String.fromUTF8? ⟨([] : Bytes).toArray⟩ = some "" := by decide
    rw [Serde.replayLine, hutf]
    rfl
  rw [Serde.replayFile, fileLines, filterMap_append, Serde.replayLines]
  congr 1
  by_cases hrest : (cut UsageDb.newline b).rest = []
  · simp [hrest, hempty]
  · rw [if_neg (by simpa using hrest)]
    cases hline : J.replayLine (cut UsageDb.newline b).rest <;> simp [hline]

/-- The events of the complete lines come first. -/
theorem Serde.replayLines_sublist (J : Serde) (b : Bytes) :
    (J.replayLines b).Sublist (J.replayFile b) := by
  rw [Serde.replayFile_eq]
  exact sublist_append_left _ _

/-- A piece after the unfinished line `r` of a file is read as an event only if it is a whole
text at the beginning of a line. -/
theorem Serde.Strict.replayLine_rest (hJ : J.Strict U) (h : Pieces J U b) (he : e ∈ U)
    (hp : p <+: J.bytes e) (hne : p ≠ []) : J.replayLine ((cut newline b).rest ++ p) = none ∨
      (cut newline b).rest = [] ∧ p = J.bytes e := by
  obtain ⟨ps, hps, hrest⟩ := h.rest hJ.toLawful
  rw [← hrest]
  cases ps with
  | nil =>
    by_cases hfull : p = J.bytes e
    · exact .inr ⟨rfl, hfull⟩
    · exact .inl (hJ.piece e he p hp hfull)
  | cons q ps =>
    have hglued := hJ.glued ((q :: ps) ++ [p]) (fun r hr => ?_) (by simp)
    · rw [flatten_append, flatten_singleton] at hglued
      exact .inl hglued
    · rcases mem_append.1 hr with hr | hr
      · exact hps r hr
      · rw [mem_singleton.1 hr]
        exact ⟨hne, e, he, hp⟩

/-- A piece that breaks off adds nothing to what is read. -/
theorem Pieces.replayFile_torn (hJ : J.Strict U) (h : Pieces J U b) (he : e ∈ U) (hp : p <+: J.bytes e)
    (hlt : p ≠ J.bytes e) : (J.replayFile (b ++ p)).Sublist (J.replayFile b) := by
  by_cases hnil : p = []
  · rw [hnil, append_nil]
  · have hnone := (hJ.replayLine_rest h he hp hnil).resolve_right fun hfull => hlt hfull.2
    rw [Serde.replayFile_eq, Serde.replayLines, cut_append, cut_of_not_mem (hJ.newline_not_mem he hp)]
    simp only [Cut.glue, append_nil, hnone, Option.toList_none]
    exact J.replayLines_sublist b

/-- A line, or a piece of it, adds its event at most. -/
theorem Pieces.replayFile_line (hJ : J.Strict U) (h : Pieces J U b) (he : e ∈ U) (hp : p <+: J.line e) :
    (J.replayFile (b ++ p)).Sublist (J.replayFile b ++ [e]) := by
  -- the text is read by itself, or it is glued to a piece and not read
  have hlast : (J.replayLines b ++ (J.replayLine ((cut newline b).rest ++ J.bytes e)).toList).Sublist
      (J.replayFile b ++ [e]) := by
    refine (J.replayLines_sublist b).append ?_
    rcases hJ.replayLine_rest h he (prefix_refl _) (hJ.bytes_ne_nil he) with hnone | ⟨hrest, -⟩
    · rw [hnone]
      exact nil_sublist _
    · rw [hrest, nil_append, hJ.replayLine_bytes he]
      exact List.Sublist.refl _
  rcases prefix_line_cases hp with hp | rfl
  · by_cases hfull : p = J.bytes e
    · rw [hfull, Serde.replayFile_eq, Serde.replayLines, cut_append, cut_of_not_mem (hJ.newline e he)]
      simpa [Cut.glue, Serde.replayLines] using hlast
    · exact (h.replayFile_torn hJ he hp hfull).trans (sublist_append_left _ _)
  · rw [Serde.replayFile_eq, Serde.replayLines, Serde.line, cut_append, cut_line (hJ.newline e he)]
    have hempty : J.replayLine [] = none := hJ.piece e he [] nil_prefix (hJ.bytes_ne_nil he).symm
    have hone : ∀ l, [l].filterMap J.replayLine = (J.replayLine l).toList := by
      intro l
      cases hl : J.replayLine l <;> simp [hl]
    simpa [Cut.glue, Serde.replayLines, hJ.dropCr_append_bytes he, hempty, hone] using hlast

/-- **A batch adds its own events at most**, each once and in order, whether it is written in
whole or breaks off, and whatever the file ends with. -/
theorem Pieces.replayFile_batch (hJ : J.Strict U) (h : Pieces J U b) {es : List UsageEvent}
    (hes : ∀ e ∈ es, e ∈ U) (hp : p <+: J.batch es) :
      (J.replayFile (b ++ p)).Sublist (J.replayFile b ++ es) := by
  induction es generalizing b p with
  | nil =>
    rw [prefix_nil.1 hp, append_nil, append_nil]
  | cons e es ih =>
    have he := hes e (by simp)
    have hcons : J.batch (e :: es) = J.line e ++ J.batch es := rfl
    rw [hcons] at hp
    rcases prefix_append_cases hp with hp | ⟨q, rfl, hq⟩
    · refine (h.replayFile_line hJ he hp).trans ((List.Sublist.refl _).append ?_)
      exact singleton_sublist.2 (by simp)
    · have hline := h.replayFile_line hJ he (prefix_refl (J.line e))
      have hrest := ih (h.line he) (fun e he => hes e (by simp [he])) hq
      have hboth := hrest.trans (hline.append_right es)
      rwa [append_assoc, append_assoc] at hboth

/-! ### The stand-in for concrete runs -/

/-- The stand-in reads nothing but its texts. -/
theorem Serde.replayLine_sample {events : List UsageEvent} {x : UsageEvent}
    (h : (Serde.sample events).replayLine p = some x) : ∃ e ∈ events,
      p = (Serde.sample events).bytes e := by
  rw [Serde.replayLine, Option.bind_eq_some_iff] at h
  obtain ⟨s, hs, hx⟩ := h
  split at hx
  · cases hx
  · refine ⟨x, mem_of_find?_eq_some hx, ?_⟩
    have htext := List.find?_some hx
    rw [decide_eq_true_eq] at htext
    rw [← utf8_of_fromUTF8? hs, htext]
    rfl

/-- The stand-in is strict for events whose texts have no braces but the outer ones. -/
theorem Serde.strict_sample {events : List UsageEvent}
    (h : ∀ e ∈ events, (Serde.sample events).ofText ((Serde.sample events).text e) = some e ∧
      newline ∉ (Serde.sample events).bytes e)
    (hopen : ∀ e ∈ events, ((Serde.sample events).bytes e).count 123 = 1)
    (hclose : ∀ e ∈ events, ((Serde.sample events).bytes e).count 125 = 1) :
    (Serde.sample events).Strict { e | e ∈ events } := by
  have hbytes : ∀ e, (Serde.sample events).bytes e =
      123 :: (utf8 ("\"event_id\":\"" ++ e.eventId ++ "\"") ++ [125]) := by
    intro e
    rw [Serde.bytes, Serde.sample, utf8_append, utf8_append]
    rfl
  refine ⟨lawful_sample h, fun e he p hp hne => ?_, fun ps hps hlen => ?_⟩
  · -- a piece has no closing brace
    by_contra hsome
    obtain ⟨x, hx⟩ := Option.ne_none_iff_exists'.1 hsome
    obtain ⟨e', he', rfl⟩ := Serde.replayLine_sample hx
    obtain ⟨t, ht⟩ := hp
    have hcount := congrArg (List.count 125) ht
    rw [count_append, hclose e he, hclose e' he'] at hcount
    have hlast : t ≠ [] := by
      rintro rfl
      exact hne (by rw [← ht, append_nil])
    have hmem : (125 : UInt8) ∈ t := by
      have h125 : t.getLast? = some 125 := by
        have := congrArg List.getLast? ht
        rw [List.getLast?_append, hbytes e] at this
        rw [List.getLast?_eq_some_getLast hlast, Option.some_or, ← cons_append,
          List.getLast?_append] at this
        rw [List.getLast?_eq_some_getLast hlast]
        exact this
      exact mem_of_getLast? h125
    have := count_pos_iff.2 hmem
    omega
  · by_contra hsome
    obtain ⟨x, hx⟩ := Option.ne_none_iff_exists'.1 hsome
    obtain ⟨e', he', heq⟩ := Serde.replayLine_sample hx
    have hone : ∀ p ∈ ps, 1 ≤ p.count 123 := by
      intro p hp
      obtain ⟨hne, e, -, hpre⟩ := hps p hp
      cases p with
      | nil => exact absurd rfl hne
      | cons c p =>
        rw [hbytes e, cons_prefix_cons] at hpre
        rw [hpre.1, count_cons_self]
        omega
    -- the first two pieces have an opening brace each
    obtain ⟨a, b, rest, rfl⟩ : ∃ a b rest, ps = a :: b :: rest := by
      cases ps with
      | nil => simp at hlen
      | cons a ps =>
        cases ps with
        | nil => simp at hlen
        | cons b rest => exact ⟨a, b, rest, rfl⟩
    have hcount := congrArg (List.count 123) heq
    rw [hopen e' he', flatten_cons, flatten_cons, count_append, count_append] at hcount
    have ha := hone a (by simp)
    have hb := hone b (by simp)
    omega

end UsageDb
