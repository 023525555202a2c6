/-
# Requests that arguments can make

A request that is read from arguments names a note, and nothing in it is named by an empty text.
Each such request can be written as arguments, so these are all the requests that there are.
-/
import NoteCheck.CommandLine.Arguments
import NoteCheck.Proofs.Results

namespace NoteCheck.CommandLine

open Results

variable {request next : Request}

/-- No path in a request is empty, and no configuration has an empty name. -/
structure Request.IsNamed (request : Request) : Prop where
  paths : ∀ path ∈ request.paths, path ≠ ""
  config : request.config ≠ some ""

namespace Request.IsNamed

/-- A path that is added is not empty. -/
theorem addPath {path : String} (h : request.IsNamed) (hnext : request.addPath path = .ok next) :
    next.IsNamed := by
  rw [Request.addPath] at hnext
  split at hnext
  · cases hnext
  · rename_i hempty
    obtain rfl := pure_eq_ok.1 hnext
    refine ⟨List.forall_mem_append.2 ⟨h.paths, List.forall_mem_singleton.2 ?_⟩, h.config⟩
    simpa using hempty

/-- An option is given a value that is not empty where that has to be so. -/
theorem give {setting : Setting} {value : String} (h : request.IsNamed)
    (hnext : request.give setting value = .ok next) : next.IsNamed := by
  cases setting with
  | config =>
    rw [Request.give] at hnext
    split at hnext
    · cases hnext
    · rename_i hempty
      obtain rfl := pure_eq_ok.1 hnext
      rw [Bool.or_eq_true, not_or] at hempty
      refine ⟨h.paths, fun hvalue => hempty.2 ?_⟩
      rw [Option.some.inj hvalue]
      rfl
  | checker =>
    rw [Request.give] at hnext
    split at hnext
    · cases hnext
    · obtain rfl := pure_eq_ok.1 hnext
      exact ⟨h.paths, h.config⟩

/-- Asking for more of the log names nothing. -/
theorem beVerbose (h : request.IsNamed) (hnext : request.beVerbose = .ok next) : next.IsNamed := by
  rw [Request.beVerbose] at hnext
  split at hnext
  · cases hnext
  · obtain rfl := pure_eq_ok.1 hnext
    exact ⟨h.paths, h.config⟩

/-- Paths that are added one after the other are not empty. -/
theorem foldlM_addPath {paths : List String} (h : request.IsNamed)
    (hnext : paths.foldlM Request.addPath request = .ok next) : next.IsNamed := by
  induction paths generalizing request with
  | nil =>
    obtain rfl := pure_eq_ok.1 hnext
    exact h
  | cons path paths ih =>
    rw [List.foldlM_cons] at hnext
    obtain ⟨first, hfirst, hothers⟩ := bind_eq_ok.1 hnext
    exact ih (h.addPath hfirst) hothers

end Request.IsNamed

section Reading

variable {waiting : Option Setting} {arguments : List String}

/-- Letters leave a request named, whether or not the last of them waits for its value. -/
theorem isNamed_of_readLetters {letters : List Char} (h : request.IsNamed)
    (hread : readLetters request letters = .ok (next, waiting)) : next.IsNamed := by
  fun_induction readLetters request letters with
  | case1 | case5 =>
    cases hread
    exact h
  | case2 request letters ih =>
    obtain ⟨first, hfirst, hothers⟩ := bind_eq_ok.1 hread
    exact ih first (h.beVerbose hfirst) hothers
  | case3 | case4 | case8 => cases hread
  | case6 | case7 =>
    obtain ⟨first, hfirst, hothers⟩ := bind_eq_ok.1 hread
    cases hothers
    exact h.give hfirst

/-- An option with a value leaves a request named. -/
theorem isNamed_of_readSetting {setting : Setting} {value : Option String} (h : request.IsNamed)
    (hread : readSetting request setting value = .ok (next, waiting)) : next.IsNamed := by
  cases value with
  | none =>
    cases hread
    exact h
  | some value =>
    obtain ⟨first, hfirst, hothers⟩ := bind_eq_ok.1 hread
    cases hothers
    exact h.give hfirst

/-- An option leaves a request named. -/
theorem isNamed_of_readOption {option : String} (h : request.IsNamed)
    (hread : readOption request option = .ok (next, waiting)) : next.IsNamed := by
  unfold readOption at hread
  split at hread
  · dsimp only at hread
    unfold readName at hread
    split at hread
    · exact isNamed_of_readSetting h hread
    · exact isNamed_of_readSetting h hread
    · obtain ⟨first, hfirst, hothers⟩ := bind_eq_ok.1 hread
      cases hothers
      exact h.beVerbose hfirst
    · cases hread
    · cases hread
    · cases hread
  · exact isNamed_of_readLetters h hread
  · cases hread

/-- Reading leaves a request named, from each argument to the next. -/
theorem isNamed_of_readArguments (h : request.IsNamed)
    (hread : readArguments request waiting arguments = .ok next) : next.IsNamed := by
  fun_induction readArguments request waiting arguments with
  | case1 =>
    obtain rfl := pure_eq_ok.1 hread
    exact h
  | case2 | case3 => cases hread
  | case4 request setting value arguments _ ih =>
    obtain ⟨first, hfirst, hothers⟩ := bind_eq_ok.1 hread
    exact ih first (h.give hfirst) hothers
  | case5 => exact h.foldlM_addPath hread
  | case6 request argument arguments _ _ ih =>
    obtain ⟨⟨first, waiting⟩, hfirst, hothers⟩ := bind_eq_ok.1 hread
    exact ih first waiting (isNamed_of_readOption h hfirst) hothers
  | case7 request argument arguments _ _ ih =>
    obtain ⟨first, hfirst, hothers⟩ := bind_eq_ok.1 hread
    exact ih first (h.addPath hfirst) hothers

end Reading

/-! ## Writing a request as arguments -/

/-- An option with its value, as one argument. -/
def optionWith (name value : String) : String := "--" ++ name ++ "=" ++ value

namespace Request

/-- The arguments that make a request: its options, and its paths after two dashes. -/
def arguments (request : Request) : List String :=
  (if request.isVerbose then ["-v"] else []) ++
    request.config.toList.map (optionWith "config") ++
    request.checker.toList.map (optionWith "checker") ++ "--" :: request.paths

end Request

/-- An option with its value is read by its name. -/
theorem readArguments_optionWith {name : String} (hname : '=' ∉ name.toList) (value : String)
    (rest : List String) : readArguments request none (optionWith name value :: rest) =
      (readName request name (some value)).bind fun (next, waiting) =>
        readArguments next waiting rest := by
  have htext : (optionWith name value).toList =
      '-' :: '-' :: (name.toList ++ '=' :: value.toList) := by
    simp [optionWith]
  -- the name ends at the first equals sign
  have htake : (name.toList ++ '=' :: value.toList).takeWhile (· != '=') = name.toList := by
    have hfree : ∀ c ∈ name.toList, (c != '=') = true := fun c hc =>
      bne_iff_ne.2 fun heq => hname (by rwa [heq] at hc)
    rw [List.takeWhile_append_of_pos hfree]
    simp
  have hread : readOption request (optionWith name value) =
      readName request name (some value) := by
    simp only [readOption, htext, htake, List.drop_left, String.ofList_toList, List.tail_cons]
    rfl
  have hdashes : optionWith name value ≠ "--" := by
    intro h
    have hlist := congrArg String.toList h
    rw [htext] at hlist
    simp at hlist
  have hdash : isOption (optionWith name value) = true := by
    rw [isOption, htext, Bool.and_eq_true, bne_iff_ne]
    refine ⟨rfl, fun h => ?_⟩
    have hlist := congrArg String.toList h
    rw [htext] at hlist
    cases hlist
  rw [readArguments, if_neg hdashes, if_pos hdash, hread]
  rfl

/-- After two dashes every argument is a path. -/
theorem foldlM_addPath_eq_ok {paths : List String} (h : ∀ path ∈ paths, path ≠ "") :
    paths.foldlM Request.addPath request =
      .ok { request with paths := request.paths ++ paths } := by
  induction paths generalizing request with
  | nil =>
    rw [List.append_nil]
    rfl
  | cons path paths ih =>
    obtain ⟨hpath, hpaths⟩ := List.forall_mem_cons.1 h
    have hfirst : request.addPath path = .ok { request with paths := request.paths ++ [path] } :=
      if_neg (by simpa using hpath)
    rw [List.foldlM_cons, hfirst]
    refine (ih hpaths).trans ?_
    rw [List.append_assoc]
    rfl

/-- A configuration is read where there is none yet. -/
theorem readArguments_config {config : Option String} (hnone : request.config = none)
    (hconfig : config ≠ some "") (rest : List String) :
    readArguments request none (config.toList.map (optionWith "config") ++ rest) =
      readArguments { request with config } none rest := by
  cases config with
  | none =>
    obtain ⟨paths, _, checker, isVerbose⟩ := request
    cases hnone
    rfl
  | some file =>
    have hgive : request.give .config file = .ok { request with config := some file } := by
      rw [Request.give, hnone, if_neg (by simpa using hconfig)]
      rfl
    show readArguments request none (optionWith "config" file :: rest) = _
    rw [readArguments_optionWith (by decide), readName, readSetting, hgive]
    rfl

/-- A checker is read where there is none yet. -/
theorem readArguments_checker {checker : Option String} (hnone : request.checker = none)
    (rest : List String) :
    readArguments request none (checker.toList.map (optionWith "checker") ++ rest) =
      readArguments { request with checker } none rest := by
  cases checker with
  | none =>
    obtain ⟨paths, config, _, isVerbose⟩ := request
    cases hnone
    rfl
  | some program =>
    have hgive : request.give .checker program = .ok { request with checker := some program } := by
      rw [Request.give, hnone]
      rfl
    show readArguments request none (optionWith "checker" program :: rest) = _
    rw [readArguments_optionWith (by decide), readName, readSetting, hgive]
    rfl

namespace Request

/-- A request that names a note is read from its arguments. -/
theorem ofArguments_arguments (h : request.IsNamed) (hne : request.paths ≠ []) :
    ofArguments request.arguments = .ok request := by
  obtain ⟨paths, config, checker, isVerbose⟩ := request
  have hverbose (rest : List String) :
      readArguments {} none ((if isVerbose then ["-v"] else []) ++ rest) =
        readArguments { isVerbose } none rest := by
    cases isVerbose <;> rfl
  have hread : readArguments {} none (arguments ⟨paths, config, checker, isVerbose⟩) =
      .ok ⟨paths, config, checker, isVerbose⟩ := by
    rw [arguments, List.append_assoc, List.append_assoc, hverbose,
      readArguments_config rfl h.config, readArguments_checker rfl, readArguments, if_pos rfl]
    exact foldlM_addPath_eq_ok h.paths
  rw [ofArguments, hread]
  exact if_neg (by simpa using hne)

/-- The requests that arguments can make are those that name a note, and in which nothing is named
by an empty text. -/
theorem exists_ofArguments_eq_ok_iff :
    (∃ arguments, ofArguments arguments = .ok request) ↔ request.IsNamed ∧ request.paths ≠ [] := by
  constructor
  · rintro ⟨arguments, h⟩
    obtain ⟨read, hread, hrequest⟩ := bind_eq_ok.1 h
    split at hrequest
    · cases hrequest
    · rename_i hpaths
      obtain rfl := pure_eq_ok.1 hrequest
      have hstart : ({} : Request).IsNamed :=
        ⟨List.forall_mem_nil _, (Option.some_ne_none "").symm⟩
      exact ⟨isNamed_of_readArguments hstart hread, by simpa using hpaths⟩
  · rintro ⟨h, hne⟩
    exact ⟨request.arguments, ofArguments_arguments h hne⟩

end Request

end NoteCheck.CommandLine
