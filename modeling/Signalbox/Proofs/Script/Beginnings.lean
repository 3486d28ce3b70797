import Signalbox.Proofs.Script.Grammar

/-
  Signalbox/Proofs/Script/Beginnings.lean --- how files of scripts begin.

  Symbols are read from the front, so what has been read of a file does not depend on
  what comes after.  An error stays the first one however the symbols go on, unless it
  is that they end too early.  If a file is sound, then of any symbols that it begins
  with the reader has the scripts that are complete, which the file begins with as well,
  and at most one script more is open: the one that begins in these symbols and ends
  after them.
-/

set_option autoImplicit false

namespace Signalbox

/-! ## What is read stays -/

namespace Reading

open Grammar

variable {r r' : Reading} {s : Symbol} {o : OpenScript}

/-- The label of the script that is open is the one that the finished script will have. -/
def KeepsLabel (r : Reading) : Prop :=
  ∀ o, r.current = some o → ∀ body, (o.header.script body).label = o.header.label

/-- What one more symbol makes of the script that is open: it stays open, or it is finished. -/
theorem step_open {scripts : List Script} (h : step ⟨scripts, some o⟩ s = .ok r) :
    (∃ o', o'.header = o.header ∧ r = ⟨scripts, some o'⟩) ∨
      o.around = [] ∧ r = ⟨scripts ++ [o.header.script o.body], none⟩ := by
  cases reads_of_inside h with
  | @leaf a _ => exact .inl ⟨OpenScript.add o (.act a), rfl, rfl⟩
  | @test wanted turnout _ =>
    exact .inl ⟨⟨o.header, [], ⟨wanted, turnout, o.body⟩ :: o.around⟩, rfl, rfl⟩
  | close _ =>
    cases haround : o.around with
    | nil => exact .inr ⟨rfl, by rw [close, haround]⟩
    | cons t around =>
      exact .inl ⟨⟨o.header, t.before ++ [.test t.wanted t.turnout o.body], around⟩, rfl,
        by rw [close, haround]⟩

theorem prefix_scripts_step (h : step r s = .ok r') : r.scripts <+: r'.scripts := by
  obtain ⟨scripts, current⟩ := r
  cases current with
  | some o =>
    rcases step_open h with ⟨o', -, rfl⟩ | ⟨-, rfl⟩
    · exact List.prefix_rfl
    · exact List.prefix_append _ _
  | none =>
    by_cases hstray : Stray s
    · obtain rfl := Except.ok.inj ((step_stray hstray).symm.trans h)
      exact List.prefix_rfl
    · rw [step_not_stray hstray] at h
      obtain ⟨o, -, rfl⟩ := Steps.map_eq_ok.mp h
      exact List.prefix_rfl

/-- Scripts that are complete stay the first ones. -/
theorem prefix_scripts {symbols : List Symbol} (h : symbols.foldlM step r = .ok r') :
    r.scripts <+: r'.scripts :=
  Steps.foldlM_keeps (p := fun r' => r.scripts <+: r'.scripts)
    (fun _ _ _ hbefore hstep => hbefore.trans (prefix_scripts_step hstep)) List.prefix_rfl h

/-- An opening says what its script is labelled. -/
theorem label_script_headerOf (form : Opening) (n : Int) (name : String) (body : List Command) :
    ((headerOf form (Opcode.opening form).keyword n name).script body).label =
      (headerOf form (Opcode.opening form).keyword n name).label := by
  cases form with
  | on state => cases state <;> rfl
  | _ => rfl

theorem label_of_openScript {scripts : List Script} (h : openScript scripts s = .ok o)
    (body : List Command) : (o.header.script body).label = o.header.label := by
  unfold openScript at h
  split at h
  · simp at h
  · rename_i form hform
    split at h
    · simp at h
    · dsimp only at h
      split at h
      · simp at h
      · split at h
        · simp at h
        · obtain rfl := Except.ok.inj h
          rw [openingOf_eq_some_iff.mp hform]
          exact label_script_headerOf form _ _ body

theorem keepsLabel_start : start.KeepsLabel := by
  simp [KeepsLabel, start]

theorem KeepsLabel.step (hr : r.KeepsLabel) (h : step r s = .ok r') : r'.KeepsLabel := by
  obtain ⟨scripts, current⟩ := r
  cases current with
  | some o =>
    rcases step_open h with ⟨o', hheader, rfl⟩ | ⟨-, rfl⟩
    · rintro _ ⟨⟩
      rw [hheader]
      exact hr o rfl
    · simp [KeepsLabel]
  | none =>
    by_cases hstray : Stray s
    · obtain rfl := Except.ok.inj ((step_stray hstray).symm.trans h)
      exact hr
    · rw [step_not_stray hstray] at h
      obtain ⟨o, hopen, rfl⟩ := Steps.map_eq_ok.mp h
      rintro _ ⟨⟩
      exact label_of_openScript hopen

/-! ## How an open script goes on -/

/-- Symbols with which a script is open are followed by its end, if nothing is open in the end. -/
theorem exists_whole {zs ys : List Symbol} {scripts all : List Script}
    (header : Grammar.Header s o.header.script) (bodies : Bodies zs o.around o.body)
    (h : ys.foldlM step ⟨scripts, some o⟩ = .ok ⟨all, none⟩) :
    ∃ rest later body, ys = rest ++ later ∧ rest ≠ [] ∧
      Whole (s :: (zs ++ rest)) (o.header.script body) ∧
      scripts ++ [o.header.script body] <+: all := by
  induction ys generalizing zs o with
  | nil => simp at h
  | cons y ys ih =>
    rw [List.foldlM_cons] at h
    obtain ⟨r, hstep, hrest⟩ := Steps.bind_eq_ok.mp h
    -- While the script stays open, its end is further on.
    have hmore {o' : OpenScript} (hrest : ys.foldlM step ⟨scripts, some o'⟩ = .ok ⟨all, none⟩)
        (hheader : o'.header = o.header) (hbodies : Bodies (zs ++ [y]) o'.around o'.body) :
        ∃ rest later body, y :: ys = rest ++ later ∧ rest ≠ [] ∧
          Whole (s :: (zs ++ rest)) (o.header.script body) ∧
          scripts ++ [o.header.script body] <+: all := by
      obtain ⟨rest, later, body, rfl, -, whole, hall⟩ := ih (hheader ▸ header) hbodies hrest
      rw [hheader] at whole hall
      refine ⟨y :: rest, later, body, rfl, List.cons_ne_nil _ _, ?_, hall⟩
      rwa [List.append_assoc, List.singleton_append] at whole
    cases reads_of_inside hstep with
    | leaf hleaf => exact hmore hrest rfl (bodies.add (.leaf hleaf))
    | test htest => exact hmore hrest rfl (.test bodies htest .nil)
    | close hclose =>
      obtain ⟨openHeader, body, around⟩ := o
      cases around with
      | cons t around => exact hmore hrest rfl (bodies.close hclose)
      | nil =>
        cases bodies with
        | script items =>
          exact ⟨[y], ys, body, rfl, List.cons_ne_nil _ _, .mk header items hclose,
            prefix_scripts hrest⟩

end Reading

/-! ## Beginnings of files -/

namespace Grammar

/-- Some symbols leave a script open that others after them close, with some scripts complete
before it. -/
inductive LeavesOpen : List Symbol → List Symbol → List Script → Script → Prop
  | mk {before first rest later : List Symbol} {done : List Script} {script : Script}
      (file : File before done) (begun : first ≠ []) (unfinished : rest ≠ [])
      (whole : Whole (first ++ rest) script) :
      LeavesOpen (before ++ first) (rest ++ later) done script

end Grammar

namespace Script

/-- An error is that of the first symbols that are wrong, whatever comes after them. -/
theorem ofSymbols_append_eq_error {xs : List Symbol} {e : ScriptError}
    (h : ofSymbols xs = .error e) (he : e.fault ≠ .notClosed) (ys : List Symbol) :
    ofSymbols (xs ++ ys) = .error e := by
  rw [ofSymbols] at h ⊢
  rw [List.foldlM_append]
  cases hread : xs.foldlM Reading.step Reading.start with
  | error e' =>
    rw [hread] at h
    obtain rfl := Except.error.inj h
    rfl
  | ok r =>
    rw [hread, Steps.ok_bind, Reading.finish] at h
    split at h
    · exact absurd (congrArg ScriptError.fault (Except.error.inj h)).symm he
    · simp at h

/-- The symbols that a sound file begins with write some of its first scripts, or these and the
beginning of the next one. -/
theorem ofSymbols_of_append {xs ys : List Symbol} {scripts : List Script}
    (h : ofSymbols (xs ++ ys) = .ok scripts) :
    (∃ done, done <+: scripts ∧ ofSymbols xs = .ok done) ∨
      ∃ done script, done ++ [script] <+: scripts ∧ Grammar.LeavesOpen xs ys done script ∧
        ofSymbols xs = .error (.located script.label .notClosed) := by
  have hall := Reading.foldlM_file ((ofSymbols_eq_ok_iff _ _).mp h)
  rw [List.foldlM_append] at hall
  obtain ⟨r, hxs, hys⟩ := Steps.bind_eq_ok.mp hall
  have hread : ofSymbols xs = r.finish := by
    rw [ofSymbols, hxs, Steps.ok_bind]
  have hlabel : r.KeepsLabel :=
    Steps.foldlM_keeps (fun _ _ _ => Reading.KeepsLabel.step) Reading.keepsLabel_start hxs
  cases Reading.begins_of_foldlM hxs with
  | between _ => exact .inl ⟨_, Reading.prefix_scripts hys, hread⟩
  | @inside before first done s o file header free bodies =>
    obtain ⟨rest, later, body, rfl, hrest, whole, hprefix⟩ :=
      Reading.exists_whole header bodies hys
    refine .inr ⟨done, o.header.script body, hprefix,
      .mk file (List.cons_ne_nil s first) hrest whole, ?_⟩
    rw [hread, Reading.finish, hlabel o rfl body]

/-- Errors are found from the front to the back.  An error other than that a script is not closed
stays the same, with its place, whatever symbols come after.  And of symbols that a sound file
begins with, either the first scripts of the file are read or the error is that the script which
begins in them and ends after them is not closed, at that script. -/
theorem ofSymbols_beginning (xs ys : List Symbol) :
    (∀ e, ofSymbols xs = .error e → e.message ≠ "Missing DONE keyword" →
        ofSymbols (xs ++ ys) = .error e) ∧
      ∀ scripts, ofSymbols (xs ++ ys) = .ok scripts →
        (∃ done, done <+: scripts ∧ ofSymbols xs = .ok done) ∨
          ∃ done script e, done ++ [script] <+: scripts ∧
            Grammar.LeavesOpen xs ys done script ∧ ofSymbols xs = .error e ∧
            e.message = "Missing DONE keyword" ∧ e.location = some ("At " ++ script.label) := by
  constructor
  · intro e he hmessage
    refine ofSymbols_append_eq_error he (fun hfault => hmessage ?_) ys
    rw [ScriptError.message, hfault]
    rfl
  · intro scripts h
    rcases ofSymbols_of_append h with hdone | ⟨done, script, hprefix, hopen, hread⟩
    · exact .inl hdone
    · exact .inr ⟨done, script, _, hprefix, hopen, hread, rfl, rfl⟩

/-- A wrong argument stays the error, also before an id that is used twice; and a file that is cut
inside a test leaves its second script open. -/
theorem ofSymbols_beginning_cut :
    (∃ e, ofSymbols [⟨"SEQUENCE", ["1"]⟩, ⟨"FWD", ["fast"]⟩] = .error e ∧
      ofSymbols ([⟨"SEQUENCE", ["1"]⟩, ⟨"FWD", ["fast"]⟩] ++
        [⟨"DONE", []⟩, ⟨"SEQUENCE", ["1"]⟩]) = .error e) ∧
    ∃ done script e,
      done ++ [script] <+:
        [ofUser .sequence 1 "" [], ofEvent ⟨4, .thrown⟩ [.test .closed 5 [.act .stop]]] ∧
      Grammar.LeavesOpen
        [⟨"SEQUENCE", ["1"]⟩, ⟨"DONE", []⟩, ⟨"ONTHROW", ["4"]⟩, ⟨"IFCLOSED", ["5"]⟩]
        [⟨"STOP", []⟩, ⟨"ENDIF", []⟩, ⟨"DONE", []⟩] done script ∧
      ofSymbols [⟨"SEQUENCE", ["1"]⟩, ⟨"DONE", []⟩, ⟨"ONTHROW", ["4"]⟩, ⟨"IFCLOSED", ["5"]⟩] =
        .error e ∧
      e.message = "Missing DONE keyword" ∧ e.location = some ("At " ++ script.label) := by
  constructor
  · have hfails : ofSymbols [⟨"SEQUENCE", ["1"]⟩, ⟨"FWD", ["fast"]⟩] =
        .error (.located "FWD(fast) in SEQUENCE 1" (.notANumber 1 "fast")) := by decide +kernel
    exact ⟨_, hfails, (ofSymbols_beginning _ _).1 _ hfails (by decide +kernel)⟩
  · have hfile : ofSymbols
        ([⟨"SEQUENCE", ["1"]⟩, ⟨"DONE", []⟩, ⟨"ONTHROW", ["4"]⟩, ⟨"IFCLOSED", ["5"]⟩] ++
          [⟨"STOP", []⟩, ⟨"ENDIF", []⟩, ⟨"DONE", []⟩]) =
        .ok [ofUser .sequence 1 "" [], ofEvent ⟨4, .thrown⟩ [.test .closed 5 [.act .stop]]] := by
      decide +kernel
    have hcut : ofSymbols
        [⟨"SEQUENCE", ["1"]⟩, ⟨"DONE", []⟩, ⟨"ONTHROW", ["4"]⟩, ⟨"IFCLOSED", ["5"]⟩] =
        .error (.located "ONTHROW 4" .notClosed) := by decide +kernel
    rcases (ofSymbols_beginning _ _).2 _ hfile with ⟨done, -, hdone⟩ | hopen
    · rw [hcut] at hdone
      simp at hdone
    · exact hopen

end Script

end Signalbox
