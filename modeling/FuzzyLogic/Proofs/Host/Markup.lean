import FuzzyLogic.Host.Console
import FuzzyLogic.Proofs.Decimal.Numeral
import FuzzyLogic.Proofs.Outcome
import Mathlib.Data.List.TakeWhile

/-!
# Proofs/Host/Markup — escaped text holds no tag

A markup is read from left to right: backslashes, and then a tag or one more character.
`Markup.Reads` follows the reader, with the tags that are open, and so holds only of markups that
can be read (`Reads.exists_plain`).

Escaping puts an odd number of backslashes before every tag, and nothing but backslashes, so that it
makes no new tag either: whether an opening bracket starts a tag depends on the character behind it
and on the next bracket alone (`isSome_tag?_iff`), and these stay (`find?_escapeTags`).  Hence
**escaped text is read as plain text, whatever it is** (`reads_escape`).

With this, and since what reports write themselves closes every style that it opens
(`reads_readable`), **the console of the program is lawful** (`Console.standard_lawful`).
-/

namespace FuzzyLogic.Markup

variable {c : Char} {cs body after text ending : List Char} {opened next : List String} {n : Nat}

/-! ## Tags -/

/-- Whether a character is a bracket. -/
def isBracket (c : Char) : Bool := c == ']' || c == '['

theorem tag?_eq_some_iff : tag? cs = some (body, after) ↔ ∃ c text,
    cs = '[' :: c :: (text ++ ']' :: after) ∧ body = c :: text ∧ isTagStart c = true ∧
      ∀ d ∈ text, isBracket d = false := by
  constructor
  · intro h
    unfold tag? at h
    split at h
    case h_2 => cases h
    case h_1 c rest =>
      dsimp only at h
      have hrun : ∀ d ∈ rest.takeWhile fun c => c != ']' && c != '[', isBracket d = false :=
        fun d hd => by simpa [isBracket] using List.mem_takeWhile_imp hd
      obtain ⟨text, more, htext, hrest⟩ : ∃ text more,
          text = (rest.takeWhile fun c => c != ']' && c != '[') ∧ rest = text ++ more :=
        ⟨_, _, rfl, (List.takeWhile_append_dropWhile).symm⟩
      rw [← htext] at h hrun
      rw [hrest, List.drop_left] at h
      split at h
      case h_2 => cases h
      case h_1 after' =>
        split at h
        case isFalse => cases h
        case isTrue hc =>
          obtain ⟨rfl, rfl⟩ := Prod.mk.inj (Option.some.inj h)
          exact ⟨c, text, by rw [hrest], rfl, hc, hrun⟩
  · rintro ⟨c, text, rfl, rfl, hc, htext⟩
    have hrun : (text ++ ']' :: after).takeWhile (fun c => c != ']' && c != '[') = text :=
      Text.takeWhile_run (fun d hd => by simpa [isBracket] using htext d hd)
        (Text.stops_cons.mpr rfl)
    simp only [tag?, hrun, List.drop_left, hc, if_true]

/-- An opening bracket starts a tag if the character behind it may start one and the next bracket
closes it. -/
theorem isSome_tag?_iff : (tag? cs).isSome = true ↔ ∃ c rest, cs = '[' :: c :: rest ∧
    isTagStart c = true ∧ rest.find? isBracket = some ']' := by
  simp only [Option.isSome_iff_exists, Prod.exists, tag?_eq_some_iff, List.find?_eq_some_iff_append]
  constructor
  · rintro ⟨_, after, c, text, rfl, rfl, hc, htext⟩
    exact ⟨c, _, rfl, hc, by decide, text, after, rfl, fun d hd => by simp [htext d hd]⟩
  · rintro ⟨c, _, rfl, hc, -, text, after, rfl, htext⟩
    exact ⟨_, after, c, text, rfl, rfl, hc, fun d hd => by simpa using htext d hd⟩

/-- A tag is read the same whatever comes after it. -/
theorem tag?_replace (h : tag? cs = some (body, after)) (rest : List Char) :
    tag? ('[' :: (body ++ ']' :: rest)) = some (body, rest) ∧
      cs = '[' :: (body ++ ']' :: after) := by
  obtain ⟨c, text, rfl, rfl, hc, htext⟩ := tag?_eq_some_iff.mp h
  exact ⟨tag?_eq_some_iff.mpr ⟨c, text, rfl, rfl, hc, htext⟩, rfl⟩

/-! ## What can be read -/

/-- The markups that can be read while some tags are open. -/
inductive Reads : List String → List Char → Prop
  | done (opened : List String) (n : Nat) : Reads opened (List.replicate n '\\')
  /-- Any character that starts no tag, behind backslashes. -/
  | char {opened : List String} (n : Nat) {c : Char} {after : List Char} : c ≠ '\\' →
    tag? (c :: after) = none → Reads opened after →
    Reads opened (List.replicate n '\\' ++ c :: after)
  /-- A tag behind an odd number of backslashes, which is plain text. -/
  | escaped {opened : List String} {n : Nat} {cs body after : List Char} : n % 2 = 1 →
    tag? cs = some (body, after) → Reads opened after →
    Reads opened (List.replicate n '\\' ++ cs)
  /-- A tag that can be opened or closed. -/
  | tag {opened next : List String} {n : Nat} {cs body after : List Char} : n % 2 = 0 →
    tag? cs = some (body, after) → (∀ position, follow opened body position = .ok next) →
    Reads next after → Reads opened (List.replicate n '\\' ++ cs)

/-- The backslashes in front. -/
theorem takeWhile_slashes (n : Nat) (cs : List Char) (h : cs.head? ≠ some '\\') :
    (List.replicate n '\\' ++ cs).takeWhile (· == '\\') = List.replicate n '\\' := by
  refine Text.takeWhile_run (fun d hd => by simp [List.eq_of_mem_replicate hd]) ?_
  intro d hd
  have hne : d ≠ '\\' := fun heq => h (heq ▸ hd)
  simpa using hne

theorem partsFrom_done (position : Nat) (before : List Char) (n : Nat) :
    partsFrom position before (List.replicate n '\\') =
      [.plain (before.reverse ++ List.replicate n '\\')] := by
  have hslashes := takeWhile_slashes n [] nofun
  rw [List.append_nil] at hslashes
  rw [partsFrom]
  simp [hslashes, tag?]

theorem partsFrom_char (position : Nat) (before : List Char) (hc : c ≠ '\\')
    (h : tag? (c :: after) = none) :
    partsFrom position before (List.replicate n '\\' ++ c :: after) =
      partsFrom (position + n + 1) (c :: (List.replicate n '\\' ++ before)) after := by
  have hslashes := takeWhile_slashes n (c :: after) fun heq => hc (Option.some.inj heq)
  rw [partsFrom]
  simp [hslashes, h]
  omega

theorem partsFrom_tag (position : Nat) (before : List Char) (h : tag? cs = some (body, after)) :
    ∃ next, partsFrom position before (List.replicate n '\\' ++ cs) =
      .plain before.reverse :: .plain (List.replicate (n / 2) '\\') ::
        (if n % 2 = 0 then .tag body (position + 2 * (n / 2))
          else .plain ('[' :: (body ++ [']']))) :: partsFrom next [] after := by
  obtain ⟨-, hcs⟩ := tag?_replace h []
  have hslashes := takeWhile_slashes n cs (by simp [hcs])
  rw [partsFrom]
  simp only [hslashes, List.length_replicate, List.drop_left', h]
  rw [if_pos (by simp [hcs]; omega)]
  exact ⟨_, rfl⟩

/-- **What reads can be read**, from any position on. -/
theorem Reads.exists_plain (h : Reads opened cs) : ∀ position before,
    ∃ text, plainParts opened (partsFrom position before cs) = .ok text := by
  have hplain : ∀ {opened : List String} {text : List Char} {parts : List Part},
      (∃ rest, plainParts opened parts = .ok rest) →
      ∃ all, plainParts opened (.plain text :: parts) = .ok all := by
    rintro opened text parts ⟨rest, hrest⟩
    exact ⟨bareBrackets text ++ rest, by rw [plainParts, hrest]; rfl⟩
  induction h with
  | done opened n =>
    intro position before
    rw [partsFrom_done]
    exact hplain ⟨[], rfl⟩
  | char n hc htag _ ih =>
    intro position before
    rw [partsFrom_char position before hc htag]
    exact ih _ _
  | escaped hn htag _ ih =>
    intro position before
    obtain ⟨next, hparts⟩ := partsFrom_tag position before htag
    rw [hparts, if_neg (by omega)]
    exact hplain (hplain (hplain (ih _ _)))
  | tag hn htag hfollow _ ih =>
    intro position before
    obtain ⟨next, hparts⟩ := partsFrom_tag position before htag
    rw [hparts, if_pos hn]
    refine hplain (hplain ?_)
    obtain ⟨text, htext⟩ := ih next []
    refine ⟨text, ?_⟩
    rw [plainParts, hfollow]
    exact htext

/-! ## Escaped text -/

/-- The stretches that reading and escaping step through: backslashes, then nothing, a character
that starts no tag, or a tag. -/
inductive Stretches : List Char → Prop
  | done (n : Nat) : Stretches (List.replicate n '\\')
  | char (n : Nat) {c : Char} {after : List Char} : c ≠ '\\' → tag? (c :: after) = none →
    Stretches after → Stretches (List.replicate n '\\' ++ c :: after)
  | tag (n : Nat) {cs body after : List Char} : tag? cs = some (body, after) →
    Stretches after → Stretches (List.replicate n '\\' ++ cs)

/-- Every text has its stretches. -/
theorem stretches (cs : List Char) : Stretches cs := by
  induction hlength : cs.length using Nat.strongRecOn generalizing cs with
  | ind length ih =>
    subst hlength
    obtain ⟨n, rest, rfl, hrest⟩ : ∃ n rest, cs = List.replicate n '\\' ++ rest ∧
        Text.Stops (· == '\\') rest := by
      have hrun : cs.takeWhile (· == '\\') = List.replicate _ '\\' :=
        List.eq_replicate_of_mem fun c hc => by simpa using List.mem_takeWhile_imp hc
      exact ⟨_, _, by rw [← hrun, List.takeWhile_append_dropWhile], Text.stops_dropWhile _ cs⟩
    cases htag : tag? rest with
    | some found =>
      obtain ⟨body, after⟩ := found
      obtain ⟨-, rfl⟩ := tag?_replace htag []
      refine .tag n htag (ih _ ?_ after rfl)
      simp only [List.length_append, List.length_cons]
      omega
    | none =>
      cases rest with
      | nil =>
        rw [List.append_nil]
        exact .done n
      | cons c after =>
        refine .char n (by simpa using hrest) htag (ih _ ?_ after rfl)
        simp only [List.length_append, List.length_cons]
        omega

theorem escapeTags_done (n : Nat) :
    escapeTags (List.replicate n '\\') = List.replicate n '\\' := by
  have hslashes := takeWhile_slashes n [] nofun
  rw [List.append_nil] at hslashes
  rw [escapeTags]
  simp [hslashes, tag?]

theorem escapeTags_char (hc : c ≠ '\\') (h : tag? (c :: after) = none) :
    escapeTags (List.replicate n '\\' ++ c :: after) =
      List.replicate n '\\' ++ c :: escapeTags after := by
  have hslashes := takeWhile_slashes n (c :: after) fun heq => hc (Option.some.inj heq)
  rw [escapeTags]
  simp [hslashes, h]
  omega

theorem escapeTags_tag (h : tag? cs = some (body, after)) :
    escapeTags (List.replicate n '\\' ++ cs) =
      List.replicate (2 * n + 1) '\\' ++ '[' :: (body ++ ']' :: escapeTags after) := by
  obtain ⟨-, hcs⟩ := tag?_replace h []
  have hslashes := takeWhile_slashes n cs (by simp [hcs])
  rw [escapeTags]
  simp only [hslashes, List.length_replicate, List.drop_left', h]
  rw [if_pos (by simp [hcs]; omega), two_mul, List.replicate_succ', List.append_assoc,
    ← List.replicate_append_replicate, List.append_assoc]
  rfl

/-- Escaping adds backslashes and nothing else. -/
theorem filter_escapeTags (cs : List Char) :
    (escapeTags cs).filter (· != '\\') = cs.filter (· != '\\') := by
  induction stretches cs with
  | done n => rw [escapeTags_done]
  | char n hc htag _ ih => rw [escapeTags_char hc htag]; simp [ih, List.filter_cons]
  | tag n htag _ ih =>
    rw [escapeTags_tag htag, (tag?_replace htag []).2]
    simp [ih]

/-- The next bracket stays the next one. -/
theorem find?_escapeTags (cs : List Char) :
    (escapeTags cs).find? isBracket = cs.find? isBracket := by
  have hfind : ∀ ds : List Char, (ds.filter (· != '\\')).find? isBracket = ds.find? isBracket := by
    intro ds
    rw [List.find?_filter]
    congr 1
    funext d
    by_cases hd : d = '\\'
    · rw [hd]
      rfl
    · simp [hd]
  rw [← hfind, filter_escapeTags, hfind]

/-- The first character stays, or has a backslash put before it. -/
theorem head_escapeTags (cs : List Char) :
    (escapeTags cs).head? = cs.head? ∨ (escapeTags cs).head? = some '\\' := by
  cases stretches cs with
  | done n => exact .inl (by rw [escapeTags_done])
  | char n hc htag _ =>
    rw [escapeTags_char hc htag]
    cases n with
    | zero => exact .inl rfl
    | succ n => exact .inr rfl
  | tag n htag _ =>
    rw [escapeTags_tag htag]
    exact .inr rfl

/-- A bracket that starts no tag starts none in front of escaped text. -/
theorem tag?_escapeTags (hending : ending.find? isBracket = none) (h : tag? (c :: cs) = none) :
    tag? (c :: (escapeTags cs ++ ending)) = none := by
  rw [← Option.not_isSome_iff_eq_none, isSome_tag?_iff] at h ⊢
  rintro ⟨d, rest, hcs, hd, hrest⟩
  obtain ⟨rfl, hescaped⟩ := List.cons.inj hcs
  have hslash : d ≠ '\\' := by rintro rfl; exact absurd hd (by decide)
  have hbracket : isBracket d = false := by
    rw [isBracket, Bool.or_eq_false_iff, beq_eq_false_iff_ne, beq_eq_false_iff_ne]
    constructor <;> rintro rfl <;> exact absurd hd (by decide)
  have hfind : (escapeTags cs ++ ending).find? isBracket = some ']' := by
    rw [hescaped, List.find?_cons, hbracket]
    exact hrest
  rw [List.find?_append, hending, Option.or_none, find?_escapeTags] at hfind
  -- there is a bracket left, so that the character is of the text
  cases cs with
  | nil => cases hfind
  | cons e more =>
    have hhead : (escapeTags (e :: more)).head? = some d := by
      cases hmore : escapeTags (e :: more) with
      | nil =>
        have hnone := find?_escapeTags (e :: more)
        rw [hmore, hfind] at hnone
        cases hnone
      | cons e' more' =>
        rw [hmore, List.cons_append] at hescaped
        exact congrArg some (List.cons.inj hescaped).1
    have he : e = d := by
      rcases head_escapeTags (e :: more) with heq | heq
      · exact Option.some.inj (heq.symm.trans hhead)
      · exact absurd (Option.some.inj (hhead.symm.trans heq)) hslash
    subst he
    rw [List.find?_cons, hbracket] at hfind
    exact h ⟨e, more, rfl, hd, hfind⟩

/-- Without opening bracket there is no tag. -/
theorem reads_of_unopened (h : '[' ∉ cs) : Reads opened cs := by
  induction stretches cs with
  | done n => exact .done opened n
  | char n hc htag _ ih =>
    exact .char n hc htag (ih fun hmem => h (List.mem_append_right _ (List.mem_cons_of_mem _ hmem)))
  | tag n htag _ _ =>
    rw [(tag?_replace htag []).2] at h
    exact absurd (List.mem_append_right _ List.mem_cons_self) h

/-- **Escaped text can be read**, whatever it is. -/
theorem reads_escapeTags (hending : ending.find? isBracket = none) (cs : List Char) :
    Reads opened (escapeTags cs ++ ending) := by
  induction stretches cs with
  | done n =>
    rw [escapeTags_done]
    refine reads_of_unopened fun hmem => ?_
    rcases List.mem_append.mp hmem with hmem | hmem
    · exact absurd (List.eq_of_mem_replicate hmem) (by decide)
    · exact absurd (List.find?_eq_none.mp hending _ hmem) (by decide)
  | char n hc htag _ ih =>
    rw [escapeTags_char hc htag, List.append_assoc, List.cons_append]
    exact .char n hc (tag?_escapeTags hending htag) ih
  | tag n htag _ ih =>
    rw [escapeTags_tag htag]
    simp only [List.append_assoc, List.cons_append]
    exact .escaped (by omega) (tag?_replace htag _).1 ih

/-- Escaping a text escapes its tags, and at most doubles a backslash at the end. -/
theorem exists_toList_escape (s : String) : ∃ slashes : List Char,
    (escape s).toList = escapeTags s.toList ++ slashes ∧ slashes.find? isBracket = none := by
  unfold escape
  dsimp only
  split
  case h_1 => exact ⟨['\\'], String.toList_ofList, by decide⟩
  case h_2 =>
    split
    case isTrue => exact ⟨[], by rw [String.toList_ofList, List.append_nil], rfl⟩
    case isFalse => exact ⟨['\\'], String.toList_ofList, by decide⟩
  case h_3 => exact ⟨[], by rw [String.toList_ofList, List.append_nil], rfl⟩

/-- Escaped text can be read with what comes after it, if that has no bracket. -/
theorem reads_escape (ending : List Char) (hending : ending.find? isBracket = none) (s : String) :
    Reads opened ((escape s).toList ++ ending) := by
  obtain ⟨slashes, hescape, hslashes⟩ := exists_toList_escape s
  rw [hescape, List.append_assoc]
  refine reads_escapeTags ?_ s.toList
  rw [List.find?_append, hslashes, hending, Option.or_none]

/-! ## Readable markups -/

variable {markup text : String} {after : List Char}

/-- Unmarked text changes nothing about what comes after it. -/
theorem reads_unmarked (h : Unmarked text) (hafter : Reads opened after) :
    Reads opened (text.toList ++ after) := by
  unfold Unmarked at h
  generalize text.toList = cs at h ⊢
  induction cs with
  | nil => exact hafter
  | cons c cs ih =>
    obtain ⟨⟨hbracket, -, hslash⟩, hcs⟩ := List.forall_mem_cons.mp h
    refine .char 0 hslash ?_ (ih hcs)
    rw [← Option.not_isSome_iff_eq_none, isSome_tag?_iff]
    rintro ⟨_, _, heq, -, -⟩
    exact hbracket (List.cons.inj heq).1

theorem follow_opening (h : body.head? ≠ some '/') (position : Nat) :
    follow opened body position = .ok (tagName body :: opened) := by
  unfold follow
  split
  case h_1 => exact absurd rfl h
  case h_2 => rfl

theorem follow_closing (name : String) (position : Nat) :
    follow (name :: opened) ['/'] position = .ok opened := by
  have hname : tagName [] = "" := by decide +kernel
  unfold follow
  dsimp only
  split
  case h_1 rest heq =>
    obtain rfl : [] = rest := (List.cons.inj heq).2
    rw [hname]
    rfl
  case h_2 h => exact absurd rfl (h [])

/-- Nor does unmarked text in a style, which is closed behind it. -/
theorem reads_apply (style : Style) (h : Unmarked text) (hafter : Reads opened after) :
    Reads opened ((style.apply text).toList ++ after) := by
  have htag : tag? ('[' :: (style.tag.toList ++ [']'])) = some (style.tag.toList, []) := by
    cases style <;> decide
  have hopening : style.tag.toList.head? ≠ some '/' := by cases style <;> decide
  have hclosing : tag? ['[', '/', ']'] = some (['/'], []) := by decide
  have hmarkup : (style.apply text).toList ++ after =
      '[' :: (style.tag.toList ++ ']' :: (text.toList ++ '[' :: '/' :: ']' :: after)) := by
    simp [Style.apply, String.toList_append]
  rw [hmarkup]
  refine .tag (n := 0) rfl (tag?_replace htag _).1 (follow_opening hopening) ?_
  refine reads_unmarked h ?_
  exact .tag (n := 0) rfl (tag?_replace hclosing after).1 (follow_closing (tagName _)) hafter

/-- **A readable markup changes nothing about what comes after it.** -/
theorem reads_readable (h : Readable markup) (hafter : Reads [] after) :
    Reads [] (markup.toList ++ after) := by
  induction h generalizing after with
  | empty => exact hafter
  | plain _ htext ih =>
    rw [String.toList_append, List.append_assoc]
    exact ih (reads_unmarked htext hafter)
  | styled style _ htext ih =>
    rw [String.toList_append, List.append_assoc]
    exact ih (reads_apply style htext hafter)

theorem find?_isBracket_of_unmarked (h : Unmarked text) : text.toList.find? isBracket = none := by
  refine List.find?_eq_none.mpr fun c hc hbracket => ?_
  obtain ⟨hopening, hclosing, -⟩ := h c hc
  rcases Bool.or_eq_true_iff.mp hbracket with heq | heq
  · exact hclosing (eq_of_beq heq)
  · exact hopening (eq_of_beq heq)

end FuzzyLogic.Markup

namespace FuzzyLogic.Console

open Markup

/-! ## The console of the program -/

variable {markup : String}

/-- What reads can be shown. -/
theorem standard_shows (h : Reads [] markup.toList) : standard.Shows markup := by
  obtain ⟨text, htext⟩ := h.exists_plain 0 []
  refine ⟨displayed (String.ofList text) ++ "\n", ?_⟩
  simp only [standard, Markup.line, plain, htext, Except.map]

/-- A markup can be shown as a line exactly if it can be in a table. -/
theorem standard_shows_iff : standard.Shows markup ↔ ∃ shown, cell markup = .ok shown := by
  change (∃ shown, Markup.line markup = .ok shown) ↔ _
  simp only [Markup.line, cell, Outcome.map_eq_ok, exists_comm, exists_and_left, exists_eq', and_true]

/-- **The console of the program is lawful.** -/
theorem standard_lawful : standard.Lawful where
  shows_readable {markup} h := by
    refine standard_shows ?_
    have hreads := reads_readable h (.done [] 0)
    rwa [List.replicate_zero, List.append_nil] at hreads
  shows_escape {before after} text hbefore hafter := by
    refine standard_shows ?_
    rw [String.toList_append, String.toList_append, List.append_assoc]
    exact reads_readable hbefore (reads_escape _ (find?_isBracket_of_unmarked hafter) text)
  table_iff t _ := by
    have hcells : ∀ {markups : List String}, (∃ shown, markups.mapM cell = .ok shown) ↔
        ∀ markup ∈ markups, standard.Shows markup :=
      Outcome.exists_mapM_iff.trans (forall₂_congr fun _ _ => standard_shows_iff.symm)
    have hrows : (∃ shown, (t.rows.mapM fun row => row.mapM cell) = .ok shown) ↔
        ∀ row ∈ t.rows, ∀ markup ∈ row, standard.Shows markup :=
      Outcome.exists_mapM_iff.trans (forall₂_congr fun _ _ => hcells)
    have htable : (∃ shown, standard.table t = .ok shown) ↔
        (∃ title, cell t.title = .ok title) ∧ (∃ header, t.header.mapM cell = .ok header) ∧
          ∃ rows, (t.rows.mapM fun row => row.mapM cell) = .ok rows := by
      simp only [standard, Outcome.bind_eq_ok]
      constructor
      · rintro ⟨_, title, htitle, header, hheader, rows, hrows, -⟩
        exact ⟨⟨title, htitle⟩, ⟨header, hheader⟩, rows, hrows⟩
      · rintro ⟨⟨title, htitle⟩, ⟨header, hheader⟩, rows, hrows⟩
        exact ⟨_, title, htitle, header, hheader, rows, hrows, rfl⟩
    rw [htable, ← standard_shows_iff, hcells, hrows, Table.texts, Table.cells,
      List.forall_mem_cons, List.forall_mem_append, List.forall_mem_flatten]

/-- A tag that closes nothing cannot be shown. -/
theorem line_closingTag : standard.line "[/]" =
    .error (.badMarkup "closing tag '[/]' at position 0 has nothing to close") := by
  have hfollow : follow [] ['/'] 0 =
      .error (.badMarkup "closing tag '[/]' at position 0 has nothing to close") := by
    decide +kernel
  have htag : tag? ['[', '/', ']'] = some (['/'], []) := by decide
  obtain ⟨next, hparts⟩ := partsFrom_tag (n := 0) 0 [] htag
  have hread : plainParts [] (partsFrom 0 [] ['[', '/', ']']) =
      .error (.badMarkup "closing tag '[/]' at position 0 has nothing to close") := by
    refine (congrArg (plainParts []) hparts).trans ?_
    simp only [plainParts, Nat.zero_div, Nat.mul_zero, Nat.zero_mod, if_true]
    rw [hfollow]
    rfl
  change (Except.map _ (Except.map _ (plainParts [] (partsFrom 0 [] ['[', '/', ']'])))) = _
  rw [hread]
  rfl

end FuzzyLogic.Console
