import Mathlib.Data.List.TakeDrop
import Mathlib.Tactic.SplitIfs
import Workbench.Json.Reader
import Workbench.Proofs.Numerals

set_option autoImplicit false

/-! # Flat objects read back

The text of an object whose values are texts and whole numbers is read as that object. Each part of
the text is read back whatever follows it: a quoted text ends at its own quote, since every quote
inside is escaped, and a numeral ends where its digits do. -/

namespace Workbench

namespace JsonValue

/-! ## Quoted texts -/

/-- How a character is written inside quotes. -/
inductive Escaped (c : Char) : List Char → Prop where
  | letter {letter : Char} : letter ≠ 'u' → unescape? letter = some c → Escaped c ['\\', letter]
  | control : c.toNat < 32 → Escaped c (controlEscape c)
  | plain : c ≠ '"' → c ≠ '\\' → ¬ c < ' ' → Escaped c [c]

theorem escaped (c : Char) : Escaped c (escape c) := by
  unfold escape
  split_ifs with hquote hback h8 h12 h10 h13 h9 hlow
  · exact .letter (by decide) (hquote.symm ▸ rfl)
  · exact .letter (by decide) (hback.symm ▸ rfl)
  · exact .letter (by decide) (h8.symm ▸ rfl)
  · exact .letter (by decide) (h12.symm ▸ rfl)
  · exact .letter (by decide) (h10.symm ▸ rfl)
  · exact .letter (by decide) (h13.symm ▸ rfl)
  · exact .letter (by decide) (h9.symm ▸ rfl)
  · exact .control hlow
  · exact .plain hquote hback hlow

theorem unit?_control : ∀ n < 32,
    unit? '0' '0' (Nat.digitChar (n / 16)) (Nat.digitChar (n % 16)) = some n := by
  decide

/-- What looks like the escape of a number in a quoted text is one. -/
theorem unit?_of_escaped {text rest more : List Char} {e f g h : Char}
    (htext : text.flatMap escape ++ '"' :: rest = '\\' :: 'u' :: e :: f :: g :: h :: more) :
    ∃ n, unit? e f g h = some n := by
  cases text with
  | nil => cases htext
  | cons c text =>
    rw [List.flatMap_cons, List.append_assoc] at htext
    have hc := escaped c
    generalize escape c = spelling at hc htext
    cases hc with
    | letter hu hletter =>
      simp only [List.cons_append, List.cons.injEq] at htext
      exact absurd htext.2.1 hu
    | control hlow =>
      simp only [controlEscape, List.cons_append, List.cons.injEq] at htext
      obtain ⟨-, -, rfl, rfl, rfl, rfl, -⟩ := htext
      exact ⟨_, unit?_control _ hlow⟩
    | plain hquote hback =>
      simp only [List.cons_append, List.cons.injEq] at htext
      exact absurd htext.1 hback

/-- A control character is read from its number, whatever follows it in the text. -/
theorem readString_control {c : Char} (hlow : c.toNat < 32) (out text rest : List Char) :
    readString out (controlEscape c ++ (text.flatMap escape ++ '"' :: rest)) =
      readString (c :: out) (text.flatMap escape ++ '"' :: rest) := by
  have hunit := unit?_control _ hlow
  have hsurrogate : ¬ (0xD800 ≤ c.toNat ∧ c.toNat < 0xE000) := by omega
  generalize htail : text.flatMap escape ++ '"' :: rest = tail
  simp only [controlEscape, List.cons_append, List.nil_append]
  by_cases hnext : ∃ e f g h more, tail = '\\' :: 'u' :: e :: f :: g :: h :: more
  · obtain ⟨e, f, g, h, more, rfl⟩ := hnext
    obtain ⟨low, hlow'⟩ := unit?_of_escaped htail
    have hpair : pair? c.toNat low = none := by
      rw [pair?, if_neg (by omega)]
    rw [readString.eq_3, hunit, hlow']
    dsimp only
    rw [hpair]
    dsimp only
    rw [if_neg hsurrogate, Char.ofNat_toNat]
  · rw [readString.eq_4 _ _ _ _ _ _ fun e f g h more heq => hnext ⟨e, f, g, h, more, heq⟩, hunit]
    dsimp only
    rw [if_neg hsurrogate, Char.ofNat_toNat]

/-- A quoted text is read up to its closing quote. -/
theorem readString_escaped (text out rest : List Char) :
    readString out (text.flatMap escape ++ '"' :: rest) =
      some (String.ofList (out.reverse ++ text), rest) := by
  induction text generalizing out with
  | nil => rw [List.flatMap_nil, List.nil_append, readString.eq_2, List.append_nil]
  | cons c text ih =>
    have hread : readString out (escape c ++ (text.flatMap escape ++ '"' :: rest)) =
        readString (c :: out) (text.flatMap escape ++ '"' :: rest) := by
      have hc := escaped c
      generalize escape c = spelling at hc ⊢
      cases hc with
      | letter hu hletter =>
        rw [List.cons_append, List.cons_append, List.nil_append,
          readString.eq_5 _ _ _ (fun _ _ _ _ _ _ _ _ _ h => absurd h hu)
            fun _ _ _ _ _ h => absurd h hu, hletter]
      | control hlow => exact readString_control hlow out text rest
      | plain hquote hback hlow =>
        rw [List.cons_append, List.nil_append, readString.eq_6 _ _ _ hquote
          (fun _ _ _ _ _ _ _ _ _ h => absurd h hback) (fun _ _ _ _ _ h => absurd h hback)
          fun _ _ h => absurd h hback, if_neg hlow]
    rw [List.flatMap_cons, List.append_assoc, hread, ih, List.reverse_cons, List.append_assoc,
      List.singleton_append]

theorem toList_quote (text : String) :
    (quote text).toList = '"' :: (text.toList.flatMap escape ++ ['"']) :=
  String.toList_ofList

theorem readString_quote (text : String) (rest : List Char) :
    ∃ inside, (quote text).toList ++ rest = '"' :: inside ∧
      readString [] inside = some (text, rest) := by
  refine ⟨text.toList.flatMap escape ++ '"' :: rest, ?_, ?_⟩
  · rw [toList_quote, List.cons_append, List.append_assoc, List.singleton_append]
  · rw [readString_escaped, List.reverse_nil, List.nil_append, String.ofList_toList]

/-! ## Numerals -/

/-- A numeral could not go on with what follows. -/
def EndsNumeral (rest : List Char) : Prop :=
  ∀ c ∈ rest.head?, c.isDigit = false ∧ c ≠ '.' ∧ c ≠ 'e' ∧ c ≠ 'E'

theorem digits_append {whole rest : List Char} (hwhole : ∀ c ∈ whole, c.isDigit = true)
    (hrest : EndsNumeral rest) : digits (whole ++ rest) = (whole, rest) := by
  have hdigit : (fun c : Char => decide ('0' ≤ c) && decide (c ≤ '9')) = Char.isDigit := rfl
  rw [digits, hdigit, List.span_eq_takeWhile_dropWhile, List.takeWhile_append_of_pos hwhole,
    List.dropWhile_append_of_pos hwhole]
  cases rest with
  | nil => simp
  | cons c rest =>
    have hc := (hrest c rfl).1
    rw [List.takeWhile_cons_of_neg (by simp [hc]), List.dropWhile_cons_of_neg (by simp [hc]),
      List.append_nil]

theorem markedDigits?_of_not_mark (isMark : Char → Bool) (signs : Bool) {rest : List Char}
    (h : ∀ c ∈ rest.head?, isMark c = false) :
    markedDigits? isMark signs rest = some ([], rest) := by
  cases rest with
  | nil => rfl
  | cons c rest =>
    unfold markedDigits?
    dsimp only
    rw [if_neg]
    rw [h c rfl]
    exact Bool.false_ne_true

theorem wholePart?_toString (n : Nat) {rest : List Char} (hrest : EndsNumeral rest) :
    wholePart? ((toString n).toList ++ rest) = some ((toString n).toList, rest) := by
  obtain ⟨c, others, hchars, -⟩ := Text.exists_toString_eq_cons n
  unfold wholePart?
  split
  · next more heq =>
    rw [hchars, List.cons_append] at heq
    obtain ⟨rfl, rfl⟩ := List.cons.inj heq
    obtain rfl := Text.toString_of_zero hchars
    rw [digits_append (by simp) hrest, hchars]
    rfl
  · rw [someDigits?, digits_append Text.isDigit_of_mem_toString hrest]
    dsimp only
    rw [if_neg (by simp)]

theorem readNumber_toString (n : Nat) {rest : List Char} (hrest : EndsNumeral rest) :
    readNumber ((toString n).toList ++ rest) = some (.number (toString n), rest) := by
  obtain ⟨c, others, hchars, hdigit⟩ := Text.exists_toString_eq_cons n
  have hwhole := wholePart?_toString n hrest
  unfold readNumber
  split
  next sign unsigned hsign =>
  split at hsign
  · next more heq =>
    rw [hchars, List.cons_append] at heq
    obtain ⟨rfl, -⟩ := List.cons.inj heq
    exact absurd hdigit (by decide)
  · obtain ⟨rfl, rfl⟩ := Prod.mk.inj hsign
    have hpoint := markedDigits?_of_not_mark (· == '.') false
      fun c hc => by simpa using (hrest c hc).2.1
    have hexponent := markedDigits?_of_not_mark (fun c => c == 'e' || c == 'E') true
      fun c hc => by simpa using (hrest c hc).2.2
    simp only [hwhole, hpoint, hexponent, Option.bind_eq_bind, Option.bind_some, Option.pure_def,
      List.nil_append, List.append_nil, String.ofList_toList]

/-! ## Objects -/

/-- A text or a whole number. -/
inductive IsLeaf : JsonValue → Prop where
  | string (text : String) : IsLeaf (.string text)
  | number (n : Nat) : IsLeaf (.number (toString n))

theorem readValue_of_isLeaf {v : JsonValue} (hv : v.IsLeaf) (level depth : Nat) {rest : List Char}
    (hrest : EndsNumeral rest) :
    readValue (depth + 1) ((render level v).toList ++ rest) = some (v, rest) := by
  cases hv with
  | string text =>
    obtain ⟨inside, hquote, hread⟩ := readString_quote text rest
    rw [render, hquote, readValue, hread]
    rfl
  | number n =>
    obtain ⟨c, others, hchars, hdigit⟩ := Text.exists_toString_eq_cons n
    have hread := readNumber_toString n hrest
    rw [hchars, List.cons_append] at hread
    rw [render, hchars, List.cons_append, readValue, hread]
    -- a digit begins no other value
    all_goals
      intros
      rename_i heq
      obtain ⟨rfl, -⟩ := List.cons.inj heq
      exact absurd hdigit (by decide)

/-- The text of an entry. -/
def renderEntry (level : Nat) (entry : String × JsonValue) : String :=
  quote entry.1 ++ ": " ++ render level entry.2

theorem readEntry_renderEntry {entry : String × JsonValue} (hv : entry.2.IsLeaf)
    (level depth : Nat) {rest : List Char} (hrest : EndsNumeral rest) :
    readEntry (readValue (depth + 1)) ((renderEntry level entry).toList ++ rest) =
      some (entry, rest) := by
  obtain ⟨key, v⟩ := entry
  obtain ⟨inside, hquote, hread⟩ :=
    readString_quote key (':' :: ' ' :: ((render level v).toList ++ rest))
  have htext : (renderEntry level (key, v)).toList ++ rest = '"' :: inside := by
    rw [← hquote, renderEntry]
    simp
  have hskip : skip (' ' :: ((render level v).toList ++ rest)) =
      (render level v).toList ++ rest := by
    rw [skip, List.dropWhile_cons_of_pos (by decide)]
    cases hv with
    | string text =>
      rw [render, toList_quote, List.cons_append, List.dropWhile_cons_of_neg (by decide)]
    | number n =>
      obtain ⟨c, others, hchars, hdigit⟩ := Text.exists_toString_eq_cons n
      rw [render, hchars, List.cons_append, List.dropWhile_cons_of_neg]
      intro hblank
      simp only [isBlank, Bool.or_eq_true, beq_iff_eq] at hblank
      rcases hblank with ((rfl | rfl) | rfl) | rfl <;> exact absurd hdigit (by decide)
  have hcolon : skip (':' :: ' ' :: ((render level v).toList ++ rest)) =
      ':' :: ' ' :: ((render level v).toList ++ rest) := rfl
  rw [htext, readEntry]
  simp [hread, hcolon, hskip, readValue_of_isLeaf hv level depth hrest]

theorem endsNumeral_newline (level : Nat) (rest : List Char) :
    EndsNumeral ((newline level).toList ++ rest) := by
  rw [newline, String.toList_ofList]
  intro c hc
  obtain rfl := Option.some.inj hc
  decide

theorem endsNumeral_comma (rest : List Char) : EndsNumeral (',' :: rest) := by
  intro c hc
  obtain rfl := Option.some.inj hc
  decide

/-- A line break and its indentation are blanks. -/
theorem skip_newline (level : Nat) {c : Char} (hc : isBlank c = false) (rest : List Char) :
    skip ((newline level).toList ++ c :: rest) = c :: rest := by
  have hblanks : ∀ x ∈ (newline level).toList, isBlank x = true := by
    rw [newline, String.toList_ofList]
    intro x hx
    rcases List.mem_cons.1 hx with rfl | hx
    · decide
    · rw [List.eq_of_mem_replicate hx]
      decide
  rw [skip, List.dropWhile_append_of_pos hblanks, List.dropWhile_cons_of_neg (by simp [hc])]

theorem renderEntries_cons (level : Nat) (entry : String × JsonValue)
    (entries : List (String × JsonValue)) : renderEntries level (entry :: entries) =
      "," ++ newline level ++ renderEntry level entry ++ renderEntries level entries := by
  rw [renderEntries, renderEntry]
  simp only [String.append_assoc]

/-- An entry on a line of its own is read, whatever is there to come. -/
theorem readEntry_line (level depth : Nat) {entry : String × JsonValue} (hentry : entry.2.IsLeaf)
    {tail : List Char} (htail : EndsNumeral tail) :
    readEntry (readValue (depth + 1))
        (skip ((newline level).toList ++ ((renderEntry level entry).toList ++ tail))) =
      some (entry, tail) := by
  obtain ⟨inside, hinside⟩ : ∃ inside, (renderEntry level entry).toList = '"' :: inside := by
    rw [renderEntry, String.toList_append, String.toList_append, toList_quote]
    exact ⟨_, rfl⟩
  have hskip := skip_newline level (show isBlank '"' = false by decide) (inside ++ tail)
  rw [← List.cons_append, ← hinside] at hskip
  rw [hskip, readEntry_renderEntry hentry level depth htail]

/-- Entries are read one after the other up to the closing bracket. -/
theorem readMany_renderEntries (level depth above : Nat) (rest : List Char)
    (entries : List (String × JsonValue)) (hleaf : ∀ entry ∈ entries, entry.2.IsLeaf)
    {entry : String × JsonValue} (hentry : entry.2.IsLeaf) (out : List (String × JsonValue))
    {fuel : Nat} (hfuel : entries.length < fuel) :
    readMany '\x7d' (readEntry (readValue (depth + 1))) fuel out
        ((newline level).toList ++ ((renderEntry level entry).toList ++
          ((renderEntries level entries).toList ++ ((newline above).toList ++ '\x7d' :: rest)))) =
      some (out.reverse ++ entry :: entries, rest) := by
  induction entries generalizing entry out fuel with
  | nil =>
    obtain ⟨fuel, rfl⟩ := Nat.exists_eq_succ_of_ne_zero (Nat.ne_of_gt hfuel)
    have hclose := skip_newline above (show isBlank '\x7d' = false by decide) rest
    rw [renderEntries, String.toList_empty, List.nil_append, readMany,
      readEntry_line level depth hentry (endsNumeral_newline above _)]
    simp [hclose]
  | cons next entries ih =>
    obtain ⟨fuel, rfl⟩ := Nat.exists_eq_succ_of_ne_zero (Nat.ne_of_gt (Nat.zero_lt_of_lt hfuel))
    have hmore := ih (fun e he => hleaf e (List.mem_cons_of_mem _ he))
      (hleaf next List.mem_cons_self) (entry :: out) (Nat.lt_of_succ_lt_succ hfuel)
    have htail : (renderEntries level (next :: entries)).toList ++
        ((newline above).toList ++ '\x7d' :: rest) =
          ',' :: ((newline level).toList ++ ((renderEntry level next).toList ++
            ((renderEntries level entries).toList ++
              ((newline above).toList ++ '\x7d' :: rest)))) := by
      rw [renderEntries_cons]
      simp
    have hskip : ∀ more, skip (',' :: more) = ',' :: more := fun more => rfl
    rw [htail, readMany, readEntry_line level depth hentry (endsNumeral_comma _)]
    simp only [Option.bind_eq_bind, Option.bind_some, hskip, hmore, List.reverse_cons,
      List.append_assoc, List.singleton_append]

theorem length_le_renderEntries (level : Nat) (entries : List (String × JsonValue)) :
    entries.length ≤ (renderEntries level entries).toList.length := by
  induction entries with
  | nil => exact Nat.zero_le _
  | cons entry entries ih =>
    have hcomma : ",".toList.length = 1 := by decide
    simp only [renderEntries_cons, String.toList_append, List.length_append, List.length_cons]
    omega

/-- The text of a flat object is read back as that object. -/
theorem ofText?_toText {entries : List (String × JsonValue)}
    (hleaf : ∀ entry ∈ entries, entry.2.IsLeaf) :
    ofText? (toText (.object entries)) = some (.object entries) := by
  cases entries with
  | nil => rfl
  | cons entry entries =>
    obtain ⟨body, hbody⟩ : ∃ body, body = (newline 1).toList ++ ((renderEntry 1 entry).toList ++
        ((renderEntries 1 entries).toList ++ ((newline 0).toList ++ '\x7d' :: []))) := ⟨_, rfl⟩
    have htext : (toText (.object (entry :: entries))).toList = '\x7b' :: body := by
      rw [hbody, toText, render, renderEntry]
      simp
    have hfuel : entries.length < body.length := by
      have hlength := length_le_renderEntries 1 entries
      simp only [hbody, List.length_append, List.length_cons, List.length_nil]
      omega
    have hread := readMany_renderEntries 1 body.length 0 [] entries
      (fun e he => hleaf e (List.mem_cons_of_mem _ he)) (hleaf entry List.mem_cons_self) [] hfuel
    rw [← hbody] at hread
    obtain ⟨inside, hinside⟩ : ∃ inside, skip body = '"' :: inside := by
      rw [hbody, renderEntry, String.toList_append, String.toList_append, toList_quote]
      exact ⟨_, skip_newline 1 (by decide) _⟩
    have hall : readAll '\x7d' (readEntry (readValue (body.length + 1))) body =
        some (entry :: entries, []) := by
      rw [readAll, hinside]
      dsimp only
      rw [if_neg (by decide), hread]
      rfl
    have hstart : skip ('\x7b' :: body) = '\x7b' :: body := rfl
    rw [ofText?, htext, hstart, List.length_cons, readValue, hall]
    rfl

end JsonValue

end Workbench
