import Dichotomy.CommandLine.Settings
import Dichotomy.Proofs.Outcomes
import Mathlib.Data.List.Infix

/-!
# Values of options

An option takes its values from the arguments behind it, up to the separator, or from the text
attached to it.  Only an attached text can be the separator itself; it is then dropped, and the
option is left without a value.  As long as no argument ends so, each option that is given keeps
its values.

## Main statements

- `Word.keepsValues_ofArguments`: classed arguments keep their values.
- `Settings.isValued_readWords`: what reading them preserves.
- `Settings.exists_argument_of_not_isValued`: which arguments leave an option without a value.
-/

namespace Dichotomy

namespace Word

/-! ## Classed arguments -/

/-- An argument that is longer than the separator and ends with it. -/
def EndsInSeparator (argument : String) : Prop :=
  argument ≠ "--" ∧ ['-', '-'] <:+ argument.toList

/-- The text of a word comes from the argument that has been classed. -/
def IsPartOf (argument : String) : Word → Prop
  | plain text => text = argument
  | option _ _ (some text) => text.toList <:+ argument.toList
  | _ => True

theorem suffix_of_cutAtEquals {chars spelling : List Char} {value : String}
    (h : cutAtEquals chars = (spelling, some value)) : value.toList <:+ chars := by
  unfold cutAtEquals at h
  split at h
  next c rest hdrop =>
    obtain ⟨-, rfl⟩ : chars.takeWhile (· ≠ '=') = spelling ∧ String.ofList rest = value := by
      simpa using h
    rw [String.toList_ofList]
    have hrest : rest <:+ c :: rest := List.suffix_cons c rest
    exact hrest.trans (hdrop ▸ List.dropWhile_suffix _)
  next => cases h

/-- Shortened and composed options attach an end of the argument. -/
theorem isPartOf_candidates {argument spelling : String} {word : Word}
    (h : (spelling, word) ∈ candidates argument.toList) : word.IsPartOf argument := by
  cases hcut : cutAtEquals argument.toList with
  | mk beginning attached =>
  simp only [candidates, hcut] at h
  split at h
  · obtain ⟨⟨known, flag⟩, -, heq⟩ := List.mem_map.mp h
    obtain ⟨-, rfl⟩ := Prod.mk.inj heq
    rw [IsPartOf, String.toList_ofList]
    exact List.drop_suffix 2 _
  · obtain ⟨⟨known, flag⟩, -, heq⟩ := List.mem_map.mp h
    obtain ⟨-, rfl⟩ := Prod.mk.inj heq
    cases attached with
    | none => trivial
    | some value => exact suffix_of_cutAtEquals hcut

theorem isPartOf_ofArgument {argument : String} {word : Word}
    (h : ofArgument argument = .ok word) : word.IsPartOf argument := by
  cases hcut : cutAtEquals argument.toList with
  | mk spelling attached =>
  simp only [ofArgument, hcut] at h
  split at h
  · obtain rfl := Except.ok.inj h
    rfl
  split at h
  · obtain rfl := Except.ok.inj h
    trivial
  split at h
  · obtain rfl := Except.ok.inj h
    rfl
  split at h
  next value flag =>
    obtain rfl := Except.ok.inj h
    exact suffix_of_cutAtEquals hcut
  split at h
  next known shortened hcandidates =>
    obtain rfl := Except.ok.inj h
    exact isPartOf_candidates (hcandidates ▸ List.mem_singleton.mpr rfl)
  · split at h
    · obtain rfl := Except.ok.inj h
      rfl
    · obtain rfl := Except.ok.inj h
      trivial
  · cases h

/-! ## Sequences of words -/

/-- Wherever an option stands, neither its attached text nor a value right behind it can be taken
    for the separator. -/
def KeepValues (words : List Word) : Prop :=
  ∀ flag short attached rest, option flag short attached :: rest <:+ words →
    (∀ text, attached = some text → ¬ ['-', '-'] <:+ text.toList) ∧
      ∀ word ∈ rest.takeWhile Settings.isPlain, word.text ≠ "--"

theorem KeepValues.of_suffix {words words' : List Word} (h : KeepValues words)
    (hsuffix : words' <:+ words) : KeepValues words' :=
  fun flag short attached rest hrest => h flag short attached rest (hrest.trans hsuffix)

theorem exists_of_ofArguments_cons {argument : String} {arguments : List String}
    {words : List Word} (hseparator : argument ≠ "--")
    (h : ofArguments (argument :: arguments) = .ok words) :
    ∃ word rest, ofArgument argument = .ok word ∧ ofArguments arguments = .ok rest ∧
      words = word :: rest := by
  rw [ofArguments] at h
  case x_1 => exact hseparator
  obtain ⟨word, hword, h⟩ := exists_of_bind_eq_ok h
  obtain ⟨rest, hrest, h⟩ := exists_of_bind_eq_ok h
  exact ⟨word, rest, hword, hrest, (Except.ok.inj h).symm⟩

/-- The first separator of a command line ends the options, so no value before it reads the same. -/
theorem text_ne_of_mem_takeWhile {arguments : List String} {words : List Word}
    (h : ofArguments arguments = .ok words) {word : Word}
    (hword : word ∈ words.takeWhile Settings.isPlain) : word.text ≠ "--" := by
  induction arguments generalizing words with
  | nil =>
    obtain rfl := Except.ok.inj h
    cases hword
  | cons argument arguments ih =>
    by_cases hseparator : argument = "--"
    · subst hseparator
      obtain rfl := Except.ok.inj h
      cases hword
    · obtain ⟨first, rest, hfirst, hrest, rfl⟩ := exists_of_ofArguments_cons hseparator h
      cases first with
      | plain text =>
        obtain rfl : text = argument := isPartOf_ofArgument hfirst
        rcases List.mem_cons.mp hword with rfl | hword
        · exact hseparator
        · exact ih hrest hword
      | separator | option _ _ _ | unknown _ => cases hword

theorem keepValues_ofArguments {arguments : List String} {words : List Word}
    (hends : ∀ argument ∈ arguments, ¬ EndsInSeparator argument)
    (h : ofArguments arguments = .ok words) : KeepValues words := by
  induction arguments generalizing words with
  | nil =>
    obtain rfl := Except.ok.inj h
    intro flag short attached rest hsuffix
    cases List.suffix_nil.mp hsuffix
  | cons argument arguments ih =>
    by_cases hseparator : argument = "--"
    · -- Behind the separator there are no options.
      subst hseparator
      obtain rfl := Except.ok.inj h
      intro flag short attached rest hsuffix
      have hmem := hsuffix.subset List.mem_cons_self
      simp at hmem
    · obtain ⟨first, others, hfirst, hothers, rfl⟩ := exists_of_ofArguments_cons hseparator h
      intro flag short attached rest hsuffix
      rcases List.suffix_cons_iff.mp hsuffix with heq | hsuffix
      · obtain ⟨rfl, rfl⟩ := List.cons.inj heq
        refine ⟨?_, fun word hword => text_ne_of_mem_takeWhile hothers hword⟩
        rintro text rfl hend
        exact hends argument List.mem_cons_self
          ⟨hseparator, hend.trans (isPartOf_ofArgument hfirst)⟩
      · exact ih (fun other hother => hends other (List.mem_cons_of_mem _ hother)) hothers
          flag short attached rest hsuffix

end Word

namespace Settings

/-! ## Options with their values -/

/-- The options that take values have some, even when a separator has been dropped. -/
def HaveValues (options : List (Flag × List String)) : Prop :=
  ∀ option ∈ options, option.1.arity ≠ .zero → dropSeparator option.2 ≠ []

/-- The options composed before the last one take no values, and the text attached to the last one
    is an end of the text they are composed in. -/
theorem of_compose {flag last : Flag} {short : Bool} {chars : List Char} {flags : List Flag}
    {value : Option String} (h : compose flag short chars = .ok (flags, last, value)) :
    (∀ flag ∈ flags, flag.arity = .zero) ∧ ∀ text, value = some text → text.toList <:+ chars := by
  induction chars generalizing flag short flags with
  | nil =>
    unfold compose at h
    split at h
    · cases h
    · obtain ⟨rfl, -, rfl⟩ : flags = [] ∧ last = flag ∧ value = some "" := by
        simpa [eq_comm] using h
      simp
  | cons c rest ih =>
    unfold compose at h
    split at h
    next harity =>
      split at h
      next next hnext =>
        split at h
        · obtain ⟨rfl, -, rfl⟩ : flags = [flag] ∧ last = next ∧ value = none := by
            simpa [eq_comm] using h
          simp [harity]
        · obtain ⟨⟨others, last', value'⟩, hothers, h⟩ := exists_of_bind_eq_ok h
          obtain ⟨rfl, rfl, rfl⟩ : flags = flag :: others ∧ last = last' ∧ value = value' := by
            simpa [eq_comm] using Except.ok.inj h
          obtain ⟨hzero, hend⟩ := ih hothers
          refine ⟨List.forall_mem_cons.mpr ⟨harity, hzero⟩, fun text htext => ?_⟩
          exact (hend text htext).trans (List.suffix_cons c rest)
      next => cases h
    next =>
      obtain ⟨rfl, -, rfl⟩ : flags = [] ∧ last = flag ∧
          value = some (String.ofList (c :: rest)) := by
        simpa [eq_comm] using h
      simp

/-- An option that takes values takes them from the values right behind it, and one at least. -/
theorem of_valuesTaken {flag : Flag} {following : List Word} {taken : Nat}
    (h : valuesTaken flag following = .ok taken) (harity : flag.arity ≠ .zero) :
    1 ≤ taken ∧ taken ≤ (following.takeWhile isPlain).length := by
  simp only [valuesTaken] at h
  split at h
  next hzero => exact absurd hzero harity
  all_goals
    split at h
    · obtain rfl := Except.ok.inj h
      omega
    · cases h

/-- Only the last one of the options in an argument can take values. -/
theorem haveValues_append {flags : List Flag} (hzero : ∀ flag ∈ flags, flag.arity = .zero)
    {last : Flag} {values : List String}
    (hlast : last.arity ≠ .zero → dropSeparator values ≠ []) :
    HaveValues (flags.map (fun flag => (flag, [])) ++ [(last, values)]) := by
  intro option hoption harity
  rcases List.mem_append.mp hoption with hoption | hoption
  · obtain ⟨flag, hflag, rfl⟩ := List.mem_map.mp hoption
    exact absurd (hzero flag hflag) harity
  · obtain rfl := List.mem_singleton.mp hoption
    exact hlast harity

/-- An option with its values comes from what is composed before it, from an attached text or else
    from the arguments behind it. -/
theorem exists_of_optionsOf {flag : Flag} {short : Bool} {attached : Option String}
    {following : List Word} {options : List (Flag × List String)} {taken : Nat}
    (h : optionsOf flag short attached following = .ok (options, taken)) :
    ∃ (flags : List Flag) (last : Flag) (values : List String),
      options = flags.map (fun flag => (flag, [])) ++ [(last, values)] ∧
      (∀ flag ∈ flags, flag.arity = .zero) ∧
      ((∃ text, values = [text] ∧ ∃ whole, attached = some whole ∧
          text.toList <:+ whole.toList) ∨
        ∃ count, valuesTaken last following = .ok count ∧
          values = (following.take count).map Word.text) := by
  cases attached with
  | none =>
    obtain ⟨_, hflag, h⟩ := exists_of_bind_eq_ok h
    obtain rfl := Except.ok.inj hflag
    obtain ⟨count, hcount, h⟩ := exists_of_bind_eq_ok h
    obtain ⟨rfl, -⟩ := Prod.mk.inj (Except.ok.inj h)
    exact ⟨[], flag, _, rfl, by simp, .inr ⟨count, hcount, rfl⟩⟩
  | some whole =>
    obtain ⟨⟨flags, last, value⟩, hcompose, h⟩ := exists_of_bind_eq_ok h
    obtain ⟨hzero, hend⟩ := of_compose hcompose
    cases value with
    | some text =>
      obtain ⟨rfl, -⟩ := Prod.mk.inj (Except.ok.inj h)
      exact ⟨flags, last, _, rfl, hzero, .inl ⟨text, rfl, whole, rfl, hend text rfl⟩⟩
    | none =>
      obtain ⟨count, hcount, h⟩ := exists_of_bind_eq_ok h
      obtain ⟨rfl, -⟩ := Prod.mk.inj (Except.ok.inj h)
      exact ⟨flags, last, _, rfl, hzero, .inr ⟨count, hcount, rfl⟩⟩

theorem haveValues_optionsOf {flag : Flag} {short : Bool} {attached : Option String}
    {following : List Word} {options : List (Flag × List String)} {taken : Nat}
    (hattached : ∀ text, attached = some text → ¬ ['-', '-'] <:+ text.toList)
    (hfollowing : ∀ word ∈ following.takeWhile isPlain, word.text ≠ "--")
    (h : optionsOf flag short attached following = .ok (options, taken)) : HaveValues options := by
  obtain ⟨flags, last, values, rfl, hzero, hvalues⟩ := exists_of_optionsOf h
  refine haveValues_append hzero fun harity => ?_
  -- No value of the last option reads like the separator, so none is dropped.
  rcases hvalues with ⟨text, rfl, whole, hwhole, hend⟩ | ⟨count, hcount, rfl⟩
  · have hne : "--" ∉ [text] := by
      intro hmem
      obtain rfl := List.mem_singleton.mp hmem
      exact hattached whole hwhole hend
    rw [dropSeparator, List.erase_of_not_mem hne]
    exact List.cons_ne_nil _ _
  · obtain ⟨hone, hle⟩ := of_valuesTaken hcount harity
    have htaken : following.take count = (following.takeWhile isPlain).take count := by
      obtain ⟨rest, hrest⟩ := List.takeWhile_prefix isPlain (l := following)
      conv_lhs => rw [← hrest]
      exact List.take_append_of_le_length hle
    have hne : "--" ∉ (following.take count).map Word.text := by
      intro hmem
      obtain ⟨word, hword, htext⟩ := List.mem_map.mp hmem
      rw [htaken] at hword
      exact hfollowing word (List.mem_of_mem_take hword) htext
    rw [dropSeparator, List.erase_of_not_mem hne, htaken]
    refine List.ne_nil_of_length_pos ?_
    rw [List.length_map, List.length_take]
    omega

/-! ## Valued settings -/

/-- Every setting has a value. -/
structure IsValued (s : Settings) : Prop where
  format : s.format ≠ .unusable
  name : s.name ≠ none
  marker : s.marker ≠ none
  rows : s.rows ≠ .unusable

theorem isValued_default : default.IsValued := ⟨nofun, nofun, nofun, nofun⟩

theorem readFormat_ne_unusable (spelling : String) : readFormat spelling ≠ .ok .unusable := by
  intro h
  rw [readFormat] at h
  split at h
  next format hlookup =>
    obtain rfl := Except.ok.inj h
    obtain ⟨before, behind, hformats, -⟩ := List.lookup_eq_some_iff.mp hlookup
    have hmem : (spelling, OutputFormat.unusable) ∈ formats := by
      rw [hformats]
      exact List.mem_append_right _ List.mem_cons_self
    simp [formats] at hmem
  next => cases h

theorem readCount_ne_unusable (text : String) : readCount text ≠ .ok .unusable := by
  intro h
  rw [readCount] at h
  split at h <;> cases h

/-- Setting an option that has its values. -/
theorem IsValued.set {s s' : Settings} (h : s.IsValued) {flag : Flag} {values : List String}
    (hvalues : flag.arity ≠ .zero → values ≠ []) (hset : s.set flag values = .ok s') :
    s'.IsValued := by
  cases flag with
  | help => cases hset
  | file | inputNames | all | verify | verbose =>
    obtain rfl := Except.ok.inj hset
    exact ⟨h.format, h.name, h.marker, h.rows⟩
  | name =>
    obtain ⟨value, rest, rfl⟩ := List.exists_cons_of_ne_nil (hvalues nofun)
    obtain rfl := Except.ok.inj hset
    exact ⟨h.format, nofun, h.marker, h.rows⟩
  | marker =>
    obtain ⟨value, rest, rfl⟩ := List.exists_cons_of_ne_nil (hvalues nofun)
    obtain rfl := Except.ok.inj hset
    exact ⟨h.format, h.name, nofun, h.rows⟩
  | format =>
    obtain ⟨value, rest, rfl⟩ := List.exists_cons_of_ne_nil (hvalues nofun)
    obtain ⟨format, hformat, hset⟩ := exists_of_bind_eq_ok hset
    obtain rfl := Except.ok.inj hset
    exact ⟨fun hunusable => readFormat_ne_unusable value (hformat.trans (congrArg _ hunusable)),
      h.name, h.marker, h.rows⟩
  | rows =>
    obtain ⟨value, rest, rfl⟩ := List.exists_cons_of_ne_nil (hvalues nofun)
    obtain ⟨rows, hrows, hset⟩ := exists_of_bind_eq_ok hset
    obtain rfl := Except.ok.inj hset
    exact ⟨h.format, h.name, h.marker,
      fun hunusable => readCount_ne_unusable value (hrows.trans (congrArg _ hunusable))⟩

theorem IsValued.setAll {s s' : Settings} (h : s.IsValued) {options : List (Flag × List String)}
    (hoptions : HaveValues options) (hset : s.setAll options = .ok s') : s'.IsValued := by
  induction options generalizing s with
  | nil =>
    obtain rfl := Except.ok.inj hset
    exact h
  | cons option options ih =>
    rw [Settings.setAll, List.foldlM_cons] at hset
    obtain ⟨next, hnext, hset⟩ := exists_of_bind_eq_ok hset
    obtain ⟨hfirst, hrest⟩ := List.forall_mem_cons.mp hoptions
    exact ih (h.set hfirst hnext) hrest hset

/-- Reading words that keep the values of their options keeps all settings valued. -/
theorem isValued_readWords {p p' : Progress} {words : List Word} (hwords : Word.KeepValues words)
    (hp : p.settings.IsValued) (h : readWords p words = .ok p') : p'.settings.IsValued := by
  induction p, words using readWords.induct with
  | case1 p =>
    rw [readWords] at h
    obtain rfl := Except.ok.inj h
    exact hp
  | case2 p text rest ih =>
    rw [readWords] at h
    exact ih (hwords.of_suffix (List.suffix_cons _ _)) hp h
  | case3 p flag short attached rest ih =>
    rw [readWords] at h
    obtain ⟨⟨options, taken⟩, hoptions, h⟩ := exists_of_bind_eq_ok h
    obtain ⟨settings, hsettings, h⟩ := exists_of_bind_eq_ok h
    obtain ⟨hattached, hfollowing⟩ := hwords flag short attached rest List.suffix_rfl
    have hsuffix : rest.drop taken <:+ .option flag short attached :: rest :=
      (List.drop_suffix taken rest).trans (List.suffix_cons _ _)
    exact ih taken settings (hwords.of_suffix hsuffix)
      (hp.setAll (haveValues_optionsOf hattached hfollowing hoptions) hsettings) h
  | case4 p word rest hunknown hoption stretch following hread ih =>
    have hsuffix : following <:+ word :: rest :=
      (List.dropWhile_suffix _).trans (List.suffix_cons _ _)
    rw [readWords] at h
    · dsimp only at h
      rw [if_pos hread] at h
      exact ih (hwords.of_suffix hsuffix) hp h
    · exact hunknown
    · exact hoption
  | case5 p word rest hunknown hoption stretch following hread settings ih =>
    have hsuffix : following <:+ word :: rest :=
      (List.dropWhile_suffix _).trans (List.suffix_cons _ _)
    rw [readWords] at h
    · dsimp only at h
      rw [if_neg hread] at h
      exact ih (hwords.of_suffix hsuffix) ⟨hp.format, hp.name, hp.marker, hp.rows⟩ h
    · exact hunknown
    · exact hoption

/-- An option loses its value only to an argument that ends in the separator. -/
theorem exists_argument_of_not_isValued {arguments : List String} {s : Settings}
    (h : ofArguments arguments = .ok s) (hvalued : ¬ s.IsValued) :
    ∃ argument ∈ arguments, Word.EndsInSeparator argument := by
  by_contra hnone
  push Not at hnone
  unfold ofArguments at h
  cases hwords : Word.ofArguments arguments with
  | error message =>
    rw [hwords] at h
    cases h
  | ok words =>
    rw [hwords] at h
    obtain ⟨_, hsame, h⟩ := exists_of_bind_eq_ok h
    obtain rfl := Except.ok.inj hsame
    obtain ⟨p, hread, h⟩ := exists_of_bind_eq_ok h
    have hkeep := Word.keepValues_ofArguments hnone hwords
    have hp := isValued_readWords hkeep isValued_default hread
    split at h
    · obtain rfl := Except.ok.inj h
      exact hvalued hp
    · cases h

end Settings

end Dichotomy
