import Caching.Proofs.Toml.Grammar

/-!
# Reading TOML lines

Every line of the grammar is read as its entry, and adds that entry to the table. Lines one below
the other add their entries in their order, which succeeds unless a key stands twice.
-/

namespace Caching.Toml

/-! ### Spans -/

private theorem ne_of_kind {p : Char → Bool} {c d : Char} (hc : p c = true) (hd : p d = false) :
    c ≠ d := by
  rintro rfl
  rw [hc] at hd
  cases hd

/-- What is taken as long as `p` holds ends in front of these characters. -/
def Stops (p : Char → Bool) (cs : List Char) : Prop :=
  ∀ c rest, cs = c :: rest → p c = false

private theorem takeWhile_append {p : Char → Bool} {cs after : List Char} (h : ∀ c ∈ cs, p c = true)
    (hafter : Stops p after) : (cs ++ after).takeWhile p = cs := by
  rw [List.takeWhile_append_of_pos h]
  cases after with
  | nil => simp
  | cons c rest => simp [hafter c rest rfl]

private theorem dropWhile_append {p : Char → Bool} {cs after : List Char} (h : ∀ c ∈ cs, p c = true)
    (hafter : Stops p after) : (cs ++ after).dropWhile p = after := by
  rw [List.dropWhile_append_of_pos h]
  cases after with
  | nil => simp
  | cons c rest => simp [hafter c rest rfl]

/-! ### Strings -/

private theorem escape?_letter {c letter : Char} (h : (letter, c) ∈ letters) (after : List Char) :
    escape? (letter :: after) = some (c, after) := by
  simp only [letters, List.mem_cons, Prod.mk.injEq, List.not_mem_nil, or_false] at h
  rcases h with h | h | h | h | h | h | h | h <;> obtain ⟨rfl, rfl⟩ := h <;> rfl

private theorem escape?_number {c mark : Char} {digits : List Char}
    (hmark : (mark, digits.length) ∈ numberings)
    (hdigits : Text.digitsValue? 16 digits = some c.toNat) (after : List Char) :
    escape? (mark :: (digits ++ after)) = some (c, after) := by
  have hread : hexChar? digits.length (digits ++ after) = some (c, after) := by
    have hvalid : c.toNat.isValidChar := c.valid
    simp [hexChar?, hdigits, scalar?, hvalid]
  simp only [numberings, List.mem_cons, Prod.mk.injEq, List.not_mem_nil, or_false] at hmark
  rcases hmark with ⟨rfl, hcount⟩ | ⟨rfl, hcount⟩ | ⟨rfl, hcount⟩ <;> rw [hcount] at hread <;>
    exact hread

private theorem readBasic_of_spells {cs body : List Char} (h : SpellsText cs body) {steps : Nat}
    (hsteps : body.length < steps) (after : List Char) :
    readBasic steps (body ++ '"' :: after) = some (cs, after) := by
  induction h generalizing steps with
  | nil =>
    obtain ⟨steps, rfl⟩ := Nat.exists_eq_add_one.mpr hsteps
    simp [readBasic]
  | @cons c cs spelled rest hchar hrest ih =>
    obtain ⟨steps, rfl⟩ := Nat.exists_eq_add_one.mpr (Nat.zero_lt_of_lt hsteps)
    rw [List.append_assoc]
    cases hchar with
    | raw hraw =>
      obtain ⟨hplain, hquote, hslash⟩ := hraw
      have hread := @ih steps (by simpa using hsteps)
      rw [List.singleton_append, readBasic]
      · simp [hplain, hread, cons]
      all_goals simp [hquote, hslash]
    | letter hletter =>
      have hread := @ih steps (by simp at hsteps; omega)
      rw [List.cons_append, List.singleton_append, readBasic, escape?_letter hletter]
      simp [hread, cons]
    | number hmark hdigits =>
      have hread := @ih steps (by simp at hsteps; omega)
      rw [List.cons_append, List.cons_append, readBasic, escape?_number hmark hdigits]
      simp [hread, cons]

private theorem readLiteral_append {cs : List Char} (h : ∀ c ∈ cs, isPlain c = true ∧ c ≠ '\'')
    (after : List Char) : readLiteral (cs ++ '\'' :: after) = some (cs, after) := by
  induction cs with
  | nil => simp [readLiteral]
  | cons c cs ih =>
    obtain ⟨hplain, hquote⟩ := h c List.mem_cons_self
    rw [List.cons_append, readLiteral]
    · simp [hplain, ih fun d hd ↦ h d (List.mem_cons_of_mem c hd), cons]
    · simp [hquote]

private theorem spellsText_self {cs : List Char} (h : ∀ c ∈ cs, IsRaw c) : SpellsText cs cs := by
  induction cs with
  | nil => exact .nil
  | cons c cs ih =>
    exact .cons (.raw (h c List.mem_cons_self)) (ih fun d hd ↦ h d (List.mem_cons_of_mem c hd))

/-! ### Keys -/

private theorem readSimpleKey_append {key : String} {spelled : List Char}
    (h : SpellsKey key spelled) {after : List Char} (hafter : Stops isBare after) :
    readSimpleKey (spelled ++ after) = some (key, after) := by
  cases h with
  | bare hbare =>
    obtain ⟨c, rest, hkey⟩ := List.exists_cons_of_ne_nil hbare.nonempty
    have hc := hbare.bare c (hkey ▸ List.mem_cons_self)
    have htake := takeWhile_append hbare.bare hafter
    have hdrop := dropWhile_append hbare.bare hafter
    rw [hkey, List.cons_append] at htake hdrop ⊢
    rw [readSimpleKey]
    · simp only [htake, hdrop, List.isEmpty_cons, Bool.false_eq_true, if_false]
      rw [← hkey, String.ofList_toList]
    · rintro tail ⟨⟩
      exact absurd hc (by decide)
    · rintro tail ⟨⟩
      exact absurd hc (by decide)
  | single hplain =>
    rw [List.append_assoc, List.cons_append, readSimpleKey, List.singleton_append,
      readLiteral_append hplain]
    simp
  | double htext =>
    rw [List.append_assoc, List.cons_append, readSimpleKey, List.singleton_append,
      readBasic_of_spells htext (by simp only [List.length_append, List.length_cons]; omega)]
    simp

private theorem readKey_append {key : String} {spelled : List Char} (h : SpellsKey key spelled)
    {after : List Char} (hafter : Stops isBare after)
    (hdot : ∀ rest, skipSpace after ≠ '.' :: rest) {steps : Nat} (hsteps : 0 < steps) :
    readKey steps (spelled ++ after) = some ([key], skipSpace after) := by
  obtain ⟨steps, rfl⟩ := Nat.exists_eq_add_one.mpr hsteps
  rw [readKey, readSimpleKey_append h hafter]
  dsimp only
  split
  · next rest heq => exact absurd heq (hdot rest)
  · rfl

/-- Whatever follows the first part of a key, the key starts with it. -/
theorem head_of_readKey {key : String} {spelled : List Char} (h : SpellsKey key spelled)
    {after : List Char} (hafter : Stops isBare after) {steps : Nat} {path : List String}
    {rest : List Char} (hread : readKey steps (spelled ++ after) = some (path, rest)) :
    ∃ more, path = key :: more := by
  cases steps with
  | zero => cases hread
  | succ steps =>
    rw [readKey, readSimpleKey_append h hafter] at hread
    dsimp only at hread
    split at hread
    · obtain ⟨⟨more, rest'⟩, -, hpair⟩ := Option.map_eq_some_iff.mp hread
      cases hpair
      exact ⟨more, rfl⟩
    · cases hread
      exact ⟨[], rfl⟩

/-! ### Values -/

/-- Behind a value nothing but blanks, a comment and the end of the line may stand. -/
def EndsValue (cs : List Char) : Prop :=
  ∀ c rest, cs = c :: rest → c = ' ' ∨ c = '\t' ∨ c = '#' ∨ c = '\n' ∨ c = '\r'

private theorem EndsValue.stops {cs : List Char} (h : EndsValue cs) : Stops isLiteral cs := by
  intro c rest heq
  rcases h c rest heq with rfl | rfl | rfl | rfl | rfl <;> rfl

private theorem withoutUnderscores_of_isNumeral {cs : List Char} (h : Text.IsNumeral cs) :
    withoutUnderscores cs = some cs := by
  have hne {c : Char} (hc : c.isDigit = true) : c ≠ '_' := ne_of_kind hc rfl
  induction cs with
  | nil => exact absurd rfl h.nonempty
  | cons c rest ih =>
    have hc := hne (h.digits c List.mem_cons_self)
    have hrest := fun d hd ↦ h.digits d (List.mem_cons_of_mem c hd)
    cases rest with
    | nil => simp [withoutUnderscores, hc]
    | cons d rest =>
      have hd := hne (hrest d List.mem_cons_self)
      rw [withoutUnderscores]
      · simp [hc, ih ⟨List.cons_ne_nil d rest, hrest⟩]
      · simp
      · simp [hd]

private theorem digitsValue?_of_isDigit {cs : List Char} (h : ∀ c ∈ cs, c.isDigit = true) :
    Text.digitsValue? 10 cs = some (Text.valueOf cs) := by
  have hdigit {c : Char} (hc : c.isDigit = true) :
      Text.hexValue? c = some (Text.digitValue c) ∧ Text.digitValue c < 10 := by
    apply Text.forall_digit hc
    decide
  unfold Text.digitsValue? Text.valueOf
  generalize 0 = acc
  induction cs generalizing acc with
  | nil => rfl
  | cons c rest ih =>
    obtain ⟨hvalue, hlt⟩ := hdigit (h c List.mem_cons_self)
    rw [List.foldlM_cons, hvalue]
    simp only [Option.bind_some, hlt, if_true, Option.bind_eq_bind]
    exact ih (fun d hd ↦ h d (List.mem_cons_of_mem c hd)) _

private theorem bareValue?_decimal (n : Nat) : bareValue? (Text.decimal n) = some (.number n) := by
  have hnumeral := Text.isNumeral_decimal n
  have hvalue : digits? 10 (Text.decimal n) = some n := by
    simp [digits?, hnumeral.nonempty, withoutUnderscores_of_isNumeral hnumeral,
      digitsValue?_of_isDigit hnumeral.digits]
  by_cases hzero : (Text.decimal n).head? = some '0'
  · have hdecimal := Text.isUnpadded_decimal n hzero
    have hn : n = 0 := by
      rw [← Text.valueOf_decimal n, hdecimal]
      rfl
    rw [hdecimal, hn]
    rfl
  · obtain ⟨c, rest, hdecimal⟩ := List.exists_cons_of_ne_nil hnumeral.nonempty
    have hc := hnumeral.digits c (hdecimal ▸ List.mem_cons_self)
    have hother {d : Char} (hd : d.isDigit = false) : c ≠ d := ne_of_kind hc hd
    have hfirst : c ≠ '0' := by
      rintro rfl
      exact hzero (by rw [hdecimal]; rfl)
    rw [hdecimal] at hvalue ⊢
    rw [bareValue?, decimal?, hvalue]
    · rfl
    all_goals simp [hfirst, @hother 't' rfl, @hother 'f' rfl, @hother '+' rfl, @hother '-' rfl]

private theorem readValue_of_bare {v : Value} {body : List Char}
    (hbody : ∀ c ∈ body, isLiteral c = true)
    (hvalue : bareValue? body = some v) {after : List Char} (hafter : EndsValue after)
    {steps : Nat} (hsteps : 0 < steps) : readValue steps (body ++ after) = some (v, after) := by
  obtain ⟨steps, rfl⟩ := Nat.exists_eq_add_one.mpr hsteps
  have hstart {d : Char} (hd : isLiteral d = false) (rest : List Char) :
      body ++ after ≠ d :: rest := by
    cases body with
    | nil => cases hvalue
    | cons c body =>
      exact fun heq ↦ ne_of_kind (hbody c List.mem_cons_self) hd (List.cons.inj heq).1
  rw [readValue]
  · rw [takeWhile_append hbody hafter.stops, dropWhile_append hbody hafter.stops, hvalue]
    rfl
  · exact hstart rfl
  · exact hstart rfl
  · exact hstart rfl
  · exact hstart rfl

private theorem readValue_of_text {s : String} (hraw : ∀ c ∈ s.toList, IsRaw c) {after : List Char}
    (hafter : EndsValue after) {steps : Nat} (hsteps : 0 < steps) :
    readValue steps ('"' :: s.toList ++ ['"'] ++ after) = some (.text s, after) := by
  obtain ⟨steps, rfl⟩ := Nat.exists_eq_add_one.mpr hsteps
  rw [List.append_assoc, List.singleton_append, List.cons_append, readValue, readString]
  · rw [readBasic_of_spells (spellsText_self hraw)
      (by simp only [List.length_append, List.length_cons]; omega)]
    simp
  · -- three quotes would start a string of several lines
    intro rest heq
    cases htext : s.toList with
    | nil =>
      rw [htext, List.nil_append, List.cons.injEq] at heq
      have hquote := hafter '"' rest heq.2
      simp at hquote
    | cons c cs =>
      rw [htext, List.cons_append, List.cons.injEq] at heq
      exact (hraw c (htext ▸ List.mem_cons_self)).2.1 heq.1

private theorem readValue_append {v : Value} {body : List Char} (h : SpellsValue v body)
    {after : List Char} (hafter : EndsValue after) {steps : Nat} (hsteps : 0 < steps) :
    readValue steps (body ++ after) = some (v, after) := by
  cases h with
  | text hraw => exact readValue_of_text hraw hafter hsteps
  | number n =>
    refine readValue_of_bare (fun c hc ↦ ?_) (bareValue?_decimal n) hafter hsteps
    have hdigit := (Text.isNumeral_decimal n).digits c hc
    simp [isLiteral, isBare, Char.isAlphanum, hdigit]
  | yes => exact readValue_of_bare (by simp [isLiteral, isBare]) rfl hafter hsteps
  | no => exact readValue_of_bare (by simp [isLiteral, isBare]) rfl hafter hsteps

/-! ### Lines -/

/-- The table with an entry that its line gives. -/
def addNew? (t : Table) (entry : Entry) : Option Table :=
  t.add? [entry.1] entry.2

/-- The table with the entries of several lines. -/
def addEntries? (t : Table) (entries : List Entry) : Option Table :=
  entries.foldlM addNew? t

/-- A line may end in front of the characters: the document ends here, or the line does. -/
def EndsLine (cs : List Char) : Prop :=
  cs = [] ∨ ∃ ending rest, IsLineEnd ending ∧ cs = ending ++ rest

private theorem EndsLine.head {cs : List Char} (h : EndsLine cs) {c : Char} {rest : List Char}
    (hcs : cs = c :: rest) : c = '\n' ∨ c = '\r' := by
  rcases h with rfl | ⟨ending, more, rfl | rfl, rfl⟩ <;> cases hcs
  · exact .inl rfl
  · exact .inr rfl

private theorem IsComment.head {comment after : List Char} (h : IsComment comment)
    (hafter : EndsLine after) {c : Char} {rest : List Char} (hcs : comment ++ after = c :: rest) :
    c = '#' ∨ c = '\n' ∨ c = '\r' := by
  rcases h with rfl | ⟨body, rfl, -⟩
  · exact .inr (hafter.head hcs)
  · cases hcs
    exact .inl rfl

private theorem IsComment.stops {comment after : List Char} (h : IsComment comment)
    (hafter : EndsLine after) : Stops isSpace (comment ++ after) := by
  intro c rest heq
  rcases h.head hafter heq with rfl | rfl | rfl <;> rfl

private theorem IsComment.endsValue {blanks comment after : List Char} (h : IsComment comment)
    (hblanks : AreSpaces blanks) (hafter : EndsLine after) :
    EndsValue (blanks ++ (comment ++ after)) := by
  intro c rest heq
  cases blanks with
  | nil => exact .inr (.inr (h.head hafter heq))
  | cons d blanks =>
    cases heq
    have hc : c = ' ' ∨ c = '\t' := by simpa [isSpace] using hblanks c List.mem_cons_self
    exact hc.imp_right .inl

private theorem isBare_of_isSpace {c : Char} (h : isSpace c = true) : isBare c = false := by
  have hc : c = ' ' ∨ c = '\t' := by simpa [isSpace] using h
  rcases hc with rfl | rfl <;> rfl

theorem isSpace_of_isBare {c : Char} (h : isBare c = true) : isSpace c = false := by
  cases hspace : isSpace c with
  | false => rfl
  | true =>
    rw [isBare_of_isSpace hspace] at h
    cases h

private theorem skipComment_append {comment after : List Char} (h : IsComment comment)
    (hafter : EndsLine after) : skipComment (comment ++ after) = after := by
  rcases h with rfl | ⟨body, rfl, hbody⟩
  · rw [List.nil_append, skipComment]
    rintro rest rfl
    simpa using hafter.head rfl
  · refine dropWhile_append hbody fun c rest hcs ↦ ?_
    rcases hafter.head hcs with rfl | rfl <;> rfl

theorem skipSpace_append {blanks after : List Char} (h : AreSpaces blanks)
    (hafter : Stops isSpace after) : skipSpace (blanks ++ after) = after :=
  dropWhile_append h hafter

private theorem SpellsValue.stops {v : Value} {body : List Char} (h : SpellsValue v body)
    (after : List Char) : Stops isSpace (body ++ after) := by
  intro c rest heq
  cases h with
  | number n =>
    obtain ⟨d, digits, hdecimal⟩ := List.exists_cons_of_ne_nil (Text.isNumeral_decimal n).nonempty
    have hd := (Text.isNumeral_decimal n).digits d (hdecimal ▸ List.mem_cons_self)
    rw [hdecimal, List.cons_append, List.cons.injEq] at heq
    rw [← heq.1]
    apply Text.forall_digit hd
    decide
  | _ =>
    cases heq
    rfl

/-- The first character of a key is neither a blank nor a mark. -/
theorem IsBareKey.head {cs : List Char} (h : IsBareKey cs) (after : List Char) :
    ∃ c rest, cs ++ after = c :: rest ∧ isBare c = true := by
  obtain ⟨c, rest, rfl⟩ := List.exists_cons_of_ne_nil h.nonempty
  exact ⟨c, rest ++ after, rfl, h.bare c List.mem_cons_self⟩

private theorem readPair_append {key : String} {v : Value} {body second third after : List Char}
    (hkey : IsBareKey key.toList) (hvalue : SpellsValue v body) (hsecond : AreSpaces second)
    (hthird : AreSpaces third) (hafter : EndsValue after) {steps : Nat} (hsteps : 0 < steps) :
    readPair (readValue steps) (key.toList ++ (second ++ '=' :: (third ++ (body ++ after)))) =
      some (([key], v), after) := by
  have hequals : skipSpace (second ++ '=' :: (third ++ (body ++ after))) =
      '=' :: (third ++ (body ++ after)) :=
    skipSpace_append hsecond (by rintro c rest ⟨⟩; rfl)
  have hstops : Stops isBare (second ++ '=' :: (third ++ (body ++ after))) := by
    intro c rest heq
    cases second with
    | nil =>
      cases heq
      rfl
    | cons d second =>
      cases heq
      exact isBare_of_isSpace (hsecond c List.mem_cons_self)
  have hlength : 0 < (key.toList ++ (second ++ '=' :: (third ++ (body ++ after)))).length := by
    simp only [List.length_append, List.length_cons]
    omega
  have hread : readValue steps (skipSpace (third ++ (body ++ after))) = some (v, after) := by
    rw [skipSpace_append hthird (hvalue.stops after), readValue_append hvalue hafter hsteps]
  rw [readPair, readKey_append (.bare hkey) hstops (by rw [hequals]; simp) hlength, hequals]
  change (readValue steps (skipSpace (third ++ (body ++ after)))).bind _ = _
  rw [hread]
  rfl

/-- What becomes of a document once a line was read up to its end. -/
def readOn (steps : Nat) (draft : Draft) : List Char → Option Table
  | [] => some draft.table
  | cs =>
    match lineEnd? cs with
    | some rest => readLines steps draft rest
    | none => none

private theorem readOn_append {steps : Nat} {draft : Draft} {ending : List Char}
    (h : IsLineEnd ending)
    (rest : List Char) : readOn steps draft (ending ++ rest) = readLines steps draft rest := by
  rcases h with rfl | rfl <;> rfl

/-- What a line gives: nothing if it has no more than a comment, or its content. -/
def readLine (draft : Draft) (cs : List Char) : Option (Draft × List Char) :=
  match cs with
  | [] | '#' :: _ | '\n' :: _ | '\r' :: _ => some (draft, cs)
  | _ => readContent draft cs

theorem readLines_succ (steps : Nat) (draft : Draft) (cs : List Char) :
    readLines (steps + 1) draft cs = (readLine draft (skipSpace cs)).bind fun r ↦
      readOn steps r.1 (skipComment (skipSpace r.2)) := by
  rw [readLines]
  split
  · next hline =>
    rw [show readLine draft (skipSpace cs) = none from hline]
    rfl
  · next draft' rest hline =>
    rw [show readLine draft (skipSpace cs) = some (draft', rest) from hline, Option.bind_some]
    cases skipComment (skipSpace rest) <;> rfl

private theorem readLine_of_blank {draft : Draft} {cs : List Char}
    (h : ∀ c rest, cs = c :: rest → c = '#' ∨ c = '\n' ∨ c = '\r') :
    readLine draft cs = some (draft, cs) := by
  cases cs with
  | nil => rfl
  | cons c rest => rcases h c rest rfl with rfl | rfl | rfl <;> rfl

theorem readLine_of_content {draft : Draft} {c : Char} {rest : List Char}
    (h : c ≠ '#' ∧ c ≠ '\n' ∧ c ≠ '\r') :
    readLine draft (c :: rest) = readContent draft (c :: rest) := by
  rw [readLine] <;> simp [h]

/-- The first character of a line. -/
theorem Line.head {entry : Option Entry} {text after : List Char} (hline : Line entry text)
    (hafter : EndsLine after) {c : Char} {rest : List Char} (hcs : text ++ after = c :: rest) :
    isSpace c = true ∨ isBare c = true ∨ c = '#' ∨ c = '\n' ∨ c = '\r' := by
  cases hline with
  | @empty blanks comment hblanks hcomment =>
    cases blanks with
    | nil => exact .inr (.inr (hcomment.head hafter hcs))
    | cons d blanks =>
      cases hcs
      exact .inl (hblanks c List.mem_cons_self)
  | @entry key v body first second third fourth comment hkey hvalue hfirst =>
    cases first with
    | nil =>
      simp only [List.nil_append, List.append_assoc] at hcs
      obtain ⟨d, tail, hstart, hbare⟩ := hkey.head (second ++
        ('=' :: (third ++ (body ++ (fourth ++ comment))) ++ after))
      rw [hstart] at hcs
      cases hcs
      exact .inr (.inl hbare)
    | cons d first =>
      cases hcs
      exact .inl (hfirst c List.mem_cons_self)

private theorem readLines_line {entry : Option Entry} {text after : List Char}
    (hline : Line entry text) (hafter : EndsLine after) (steps : Nat) (t : Table) :
    readLines (steps + 1) ⟨t, []⟩ (text ++ after) =
      (addEntries? t entry.toList).bind fun t ↦ readOn steps ⟨t, []⟩ after := by
  cases hline with
  | @empty blanks comment hblanks hcomment =>
    have hskip : skipSpace (comment ++ after) = comment ++ after :=
      @skipSpace_append [] _ (.of_all rfl) (hcomment.stops hafter)
    rw [List.append_assoc, readLines_succ, skipSpace_append hblanks (hcomment.stops hafter),
      readLine_of_blank fun _ _ ↦ hcomment.head hafter, Option.bind_some, hskip,
      skipComment_append hcomment hafter]
    rfl
  | @entry key v body first second third fourth comment hkey hvalue hfirst hsecond hthird hfourth
      hcomment =>
    have hends := hcomment.endsValue hfourth hafter
    have hpair := @readPair_append key v body second third _ hkey hvalue hsecond hthird hends
    obtain ⟨c, rest, hstart, hbare⟩ :=
      hkey.head (second ++ '=' :: (third ++ (body ++ (fourth ++ (comment ++ after)))))
    have hother {d : Char} (hd : isBare d = false) : c ≠ d := ne_of_kind hbare hd
    have hcontent : readContent ⟨t, []⟩ (c :: rest) =
        (addNew? t (key, v)).map fun t ↦ (⟨t, []⟩, fourth ++ (comment ++ after)) := by
      have hlength : 0 < (c :: rest).length := Nat.zero_lt_succ _
      rw [hstart] at hpair
      rw [readContent, hpair hlength]
      · change (addNew? t (key, v)).bind _ = _
        cases addNew? t (key, v) <;> rfl
      · simp [@hother '[' rfl]
    have hstops : Stops isSpace (c :: rest) := by
      rintro d tail ⟨⟩
      exact isSpace_of_isBare hbare
    have hassoc : first ++ key.toList ++ second ++
        '=' :: (third ++ body ++ fourth ++ comment) ++ after = first ++ (c :: rest) := by
      rw [← hstart]
      simp only [List.append_assoc, List.cons_append]
    rw [hassoc, readLines_succ, skipSpace_append hfirst hstops,
      readLine_of_content ⟨hother rfl, hother rfl, hother rfl⟩, hcontent]
    have hsingle : addEntries? t (some (key, v)).toList = addNew? t (key, v) := by
      simp [addEntries?]
    rw [hsingle]
    cases addNew? t (key, v) with
    | none => rfl
    | some t =>
      rw [Option.map_some, Option.bind_some, Option.bind_some,
        skipSpace_append hfourth (hcomment.stops hafter), skipComment_append hcomment hafter]

/-! ### Documents -/

private theorem addEntries?_append (t : Table) (first second : List Entry) :
    addEntries? t (first ++ second) =
      (addEntries? t first).bind fun t ↦ addEntries? t second := by
  rw [addEntries?, List.foldlM_append]
  rfl

private theorem IsLineEnd.length_pos {ending : List Char} (h : IsLineEnd ending) :
    0 < ending.length := by
  rcases h with rfl | rfl <;> decide

/-- Lines with their ends add their entries in their order, and enough steps are left for the rest.
-/
theorem readLines_append {entries : List Entry} {lines : List Char} (h : Lines entries lines)
    {rest : List Char} {steps : Nat} (hsteps : lines.length + rest.length < steps) :
    ∃ steps', rest.length < steps' ∧ ∀ t, readLines steps ⟨t, []⟩ (lines ++ rest) =
      (addEntries? t entries).bind fun t ↦ readLines steps' ⟨t, []⟩ rest := by
  induction h generalizing steps with
  | nil => exact ⟨steps, by simpa using hsteps, fun t ↦ rfl⟩
  | @cons entry text ending lines entries hline hending hrest ih =>
    obtain ⟨steps, rfl⟩ := Nat.exists_eq_add_one.mpr (Nat.zero_lt_of_lt hsteps)
    have hshort : lines.length + rest.length < steps := by
      have hpos := hending.length_pos
      simp only [List.length_append] at hsteps
      omega
    obtain ⟨steps', hsteps', hread⟩ := ih hshort
    refine ⟨steps', hsteps', fun t ↦ ?_⟩
    have hends : EndsLine (ending ++ (lines ++ rest)) := .inr ⟨ending, _, hending, rfl⟩
    rw [List.append_assoc, List.append_assoc, readLines_line hline hends, addEntries?_append,
      Option.bind_assoc]
    congr 1
    funext t
    rw [readOn_append hending, hread]

/-- A document gives the table of all its entries, unless one of them cannot be added. -/
theorem readLines_of_document {entries : List Entry} {text : List Char}
    (h : IsDocument entries text) {steps : Nat} (hsteps : text.length < steps) (t : Table) :
    readLines steps ⟨t, []⟩ text = addEntries? t entries := by
  cases h with
  | @intro entries last lines text hlines hlast =>
    rw [List.length_append] at hsteps
    obtain ⟨steps', hsteps', hread⟩ := readLines_append hlines hsteps
    obtain ⟨steps', rfl⟩ := Nat.exists_eq_add_one.mpr (Nat.zero_lt_of_lt hsteps')
    have hline := fun t ↦ readLines_line hlast (.inl rfl) steps' t
    simp only [List.append_nil] at hline
    rw [hread, addEntries?_append]
    congr 1
    funext t
    rw [hline]
    exact Option.bind_fun_some _

/-- No document starts with a byte order mark. -/
theorem IsDocument.head {entries : List Entry} {cs : List Char} (h : IsDocument entries cs)
    (rest : List Char) : cs ≠ '\ufeff' :: rest := by
  have hmark : ¬ (isSpace '\ufeff' = true ∨ isBare '\ufeff' = true ∨ '\ufeff' = '#' ∨
      '\ufeff' = '\n' ∨ '\ufeff' = '\r') := by
    decide
  intro hcs
  obtain ⟨hlines, hlast⟩ := h
  cases hlines with
  | nil => exact hmark (hlast.head (.inl rfl) (by rwa [List.append_nil]))
  | cons hline hending =>
    rw [List.append_assoc, List.append_assoc] at hcs
    exact hmark (hline.head (.inr ⟨_, _, hending, rfl⟩) hcs)

end Caching.Toml
