import Conveyor.Pipeline.Builder
import Conveyor.Proofs.Shell.Fields

/-!
Commands that set a job up. Whatever texts they are made with, the shell reads them as two commands around
one operator, the fixed words and one word for each text, and no character of a text means anything to it.
-/

namespace Conveyor.Build

open Conveyor.Shell

/-- Fixed words of a command, which need no quotes. -/
theorem writes_fixed {text first : String} {rest : List String}
    (spaced : text = " ".intercalate (first :: rest))
    (bare : ∀ arg ∈ first :: rest, arg ≠ "" ∧ arg.toList.all isSafeChar = true) :
    Writes text.toList (first :: rest) := by
  have words : ∀ arg ∈ first :: rest, WrittenAs (id arg).toList arg.toList := fun arg harg =>
    writtenAs_safe (bare arg harg).1 (bare arg harg).2
  simpa only [spaced, List.map_id] using writes_intercalate id words

/-- The option of the package manager that keeps it quiet, if it is asked for. -/
def quietWords (quiet : Bool) : List String := if quiet then ["-qq"] else []

def updateWords (quiet : Bool) : List String := ["apt-get", "update"] ++ quietWords quiet

def installWords (quiet : Bool) (packages : List String) : List String :=
  ["apt-get", "install", "-y"] ++ quietWords quiet ++ ["--no-install-recommends"] ++ packages

theorem readAs_installPackages (first : String) (rest : List String) (quiet : Bool) :
    ∃ command, installPackages (first :: rest) quiet = .ok command ∧
      ReadAs command .both (updateWords quiet) (installWords quiet (first :: rest)) := by
  refine ⟨_, rfl, ?_⟩
  have names := writes_intercalate quoteWord fun arg (_ : arg ∈ first :: rest) => writtenAs_quoteWord arg
  have install : Writes ("apt-get install -y" ++ (if quiet then " -qq" else "") ++
      " --no-install-recommends").toList
      (["apt-get", "install", "-y"] ++ quietWords quiet ++ ["--no-install-recommends"]) := by
    cases quiet <;> exact writes_fixed (by rfl) (by decide)
  have update : Writes ("apt-get update" ++ (if quiet then " -qq" else "")).toList (updateWords quiet) := by
    cases quiet <;> exact writes_fixed (by rfl) (by decide)
  have named : IsCommandName "apt-get" := ⟨by decide, by decide⟩
  refine readAs_of_writes (.inl rfl) update ?_ (install.append names) ?_ ?_
  · rintro _ ⟨⟩
    exact named
  · rintro _ ⟨⟩
    exact named
  · simp

/-- The option for how much of the history to fetch, unless it is all of it. -/
def depthWords (depth : Int) : List String := if depth = 0 then [] else ["--depth=" ++ toString depth]

/-- The option for what to check out, unless it is left to the repository. -/
def refWords : Option String → List String
  | none => []
  | some ref => if ref = "" then [] else ["--branch", ref]

def cloneWords (url dest : String) (depth : Int) (ref : Option String) : List String :=
  ["git", "clone"] ++ (depthWords depth ++ refWords ref ++ [url, dest])

theorem all_safe_repr (n : Nat) : (Nat.repr n).toList.all isSafeChar = true := by
  rw [Nat.repr_eq_ofList_toDigits, String.toList_ofList, List.all_eq_true]
  intro c hc
  have digit := Nat.isDigit_of_mem_toDigits (by decide) (by decide) hc
  simp [isSafeChar, Char.isAlphanum, digit]

theorem all_safe_toString (d : Int) : (toString d).toList.all isSafeChar = true := by
  rw [Int.toString_eq_repr, Int.repr_eq_if]
  split
  · exact all_safe_repr _
  · rw [String.toList_append, List.all_append, all_safe_repr]
    decide

theorem writes_depthOption (depth : Int) :
    ∃ optionArgs : List (List String), optionArgs.flatten = depthWords depth ∧
      List.Forall₂ (fun option args => Writes option.toList args)
        ((if depth = 0 then none else some depth).toList.map fun d => "--depth=" ++ toString d)
        optionArgs := by
  unfold depthWords
  split
  · exact ⟨[], rfl, .nil⟩
  · refine ⟨[["--depth=" ++ toString depth]], rfl, .cons (.last (writtenAs_safe (by simp) ?_)) .nil⟩
    rw [String.toList_append, List.all_append, all_safe_toString]
    decide

theorem writes_refOption (ref : Option String) :
    ∃ optionArgs : List (List String), optionArgs.flatten = refWords ref ∧
      List.Forall₂ (fun option args => Writes option.toList args)
        ((ref.toList.filter fun r => !r.isEmpty).map fun r => "--branch " ++ quoteWord r) optionArgs := by
  cases ref with
  | none => exact ⟨[], rfl, .nil⟩
  | some r =>
      rw [refWords]
      split
      · rename_i empty
        exact ⟨[], rfl, by simp [empty]⟩
      · rename_i filled
        have branch : Writes "--branch".toList ["--branch"] := writes_fixed (by rfl) (by decide)
        refine ⟨[["--branch", r]], rfl, ?_⟩
        have option := branch.append (.last (writtenAs_quoteWord r))
        simpa [filled] using option

theorem cloneSource_int (url dest : String) (depth : Int) (ref : Option String) :
    cloneSource url dest (.int depth) ref =
      .ok (fetchSource url dest (if depth = 0 then none else some depth) ref) := by
  unfold cloneSource
  by_cases all : depth = 0
  · have given : (Value.int depth).isTruthy = false := by simp [Value.isTruthy, all]
    rw [given, if_pos all]
    rfl
  · have given : (Value.int depth).isTruthy = true := by simp [Value.isTruthy, all]
    rw [given, if_neg all]
    rfl

theorem readAs_cloneSource (url dest : String) (depth : Int) (ref : Option String) :
    ∃ command, cloneSource url dest (.int depth) ref = .ok command ∧
      ReadAs command .either ["test", "-d", dest ++ "/.git"] (cloneWords url dest depth ref) := by
  refine ⟨_, cloneSource_int url dest depth ref, ?_⟩
  -- the quoted destination and the suffix after it are one word
  have inside : WrittenAs ((quoteWord dest).toList ++ "/.git".toList) (dest ++ "/.git").toList := by
    obtain ⟨quotes, filled⟩ := writtenAs_quoteWord dest
    refine ⟨?_, List.append_ne_nil_of_left_ne_nil filled _⟩
    rw [String.toList_append]
    exact quotes.append (.safe (by decide))
  have test : Writes "test -d".toList ["test", "-d"] := writes_fixed (by rfl) (by decide)
  have clone : Writes "git clone".toList ["git", "clone"] := writes_fixed (by rfl) (by decide)
  have places := Writes.cons (writtenAs_quoteWord url) (.last (writtenAs_quoteWord dest))
  obtain ⟨depthArgs, depthFlat, depthOption⟩ := writes_depthOption depth
  obtain ⟨refArgs, refFlat, refOption⟩ := writes_refOption ref
  have options := writes_options (List.rel_append depthOption refOption) places
  rw [List.flatten_append, depthFlat, refFlat] at options
  refine readAs_of_writes (.inr rfl) (test.append (.last inside)) ?_ (clone.append options) ?_ ?_
  · rintro _ ⟨⟩
    exact ⟨by decide, by decide⟩
  · rintro _ ⟨⟩
    exact ⟨by decide, by decide⟩
  · simp [fetchSource]

/-- The shell reads the setup commands as the fixed words around their operator, with one word for each
argument; an empty reference and a depth of zero are no arguments. -/
theorem setup_commands_read_back :
    (∀ (packages : List String) (quiet : Bool), packages ≠ [] →
      ∃ command, installPackages packages quiet = .ok command ∧
        ReadAs command .both (updateWords quiet) (installWords quiet packages)) ∧
    ∀ (url dest : String) (depth : Int) (ref : Option String),
      ∃ command, cloneSource url dest (.int depth) ref = .ok command ∧
        ReadAs command .either ["test", "-d", dest ++ "/.git"] (cloneWords url dest depth ref) := by
  refine ⟨fun packages quiet filled => ?_, readAs_cloneSource⟩
  obtain ⟨first, rest, rfl⟩ := List.exists_cons_of_ne_nil filled
  exact readAs_installPackages first rest quiet

theorem setup_commands_read_back_hostile :
    ["a; rm -rf /", "$(id)"] ≠ ([] : List String) ∧
    ReadAs
      "apt-get update -qq && apt-get install -y -qq --no-install-recommends 'a; rm -rf /' '$(id)'" .both
      ["apt-get", "update", "-qq"]
      ["apt-get", "install", "-y", "-qq", "--no-install-recommends", "a; rm -rf /", "$(id)"] ∧
    ReadAs ("test -d '*\x27\x22\x27\x22\x27'/.git || " ++
        "git clone --depth=-3 --branch '\x60id\x60' '' '*\x27\x22\x27\x22\x27'")
      .either ["test", "-d", "*\x27/.git"]
      ["git", "clone", "--depth=-3", "--branch", "\x60id\x60", "", "*\x27"] := by
  have filled : ["a; rm -rf /", "$(id)"] ≠ ([] : List String) := by decide
  obtain ⟨_, ⟨⟩, install⟩ := setup_commands_read_back.1 _ true filled
  obtain ⟨_, ⟨⟩, fetch⟩ := setup_commands_read_back.2 "" "*\x27" (-3) (some "\x60id\x60")
  exact ⟨filled, install, fetch⟩

/-- With an empty reference no word of the command that clones is it. -/
theorem empty_ref_is_no_word :
    ¬ ∀ (url dest ref : String) (depth : Int), ∃ command args args',
      cloneSource url dest (.int depth) (some ref) = .ok command ∧ ReadAs command .either args args' ∧
        ref ∈ args' := by
  intro every
  obtain ⟨command, args, args', run, reading, there⟩ := every "u" "d" "" 1
  obtain ⟨command', run', reading'⟩ := readAs_cloneSource "u" "d" 1 (some "")
  obtain rfl := Except.ok.inj (run.symm.trans run')
  obtain ⟨s, line, line', words, words', read, -, -, stand⟩ := reading
  obtain ⟨s, line, line', words, words'', read', -, -, stand'⟩ := reading'
  rw [read] at read'
  cases read'
  rw [stand.unique stand'] at there
  exact absurd there (by decide)

end Conveyor.Build
