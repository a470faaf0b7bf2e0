import PracticeShell.Proofs.Command.Asking
import PracticeShell.Proofs.Path.Resolving
import PracticeShell.Proofs.Session.Inputs

/-!
# Abbreviated paths

In a prompt the home of the user is shortened to a tilde. What is shown still means the same path, from
wherever the user stands (`Path.resolve_display`). So the prompts for two directories differ, and `cd`
with what the prompt shows leads back to the directory (`Session.prompt_means_directory`).
-/

namespace PracticeShell

namespace Path

/-- How a path is shown: the home of the user and what lies below it behind a tilde. -/
theorem display_cases (path username : String) :
    (path = home username ∧ display path username = "~") ∨
      (∃ rest, startsWith rest "/" = true ∧ path = home username ++ rest ∧
        display path username = "~" ++ rest) ∨
      display path username = path := by
  unfold display
  split
  · exact .inl ⟨‹_›, rfl⟩
  · split
    · rename_i hbelow
      obtain ⟨cs, hcs⟩ := (startsWith_iff _ _).1 hbelow
      have hpath : path.toList = (home username).toList ++ '/' :: cs := by
        simp [← hcs]
      have hrest : path.toList.drop (home username).length = '/' :: cs := by
        rw [hpath, ← String.length_toList, List.drop_left]
      refine .inr (.inl ⟨String.ofList ('/' :: cs), ?_, String.toList_injective ?_, by rw [hrest]⟩)
      · rw [startsWith_iff]
        exact ⟨cs, by simp⟩
      · rw [String.toList_append, String.toList_ofList, hpath]
    · exact .inr (.inr rfl)

/-- What is shown for a normalized path means this path, from everywhere. -/
theorem resolve_display_eq {path : String} (h : normalize path = path) (current username : String) :
    resolve current (display path username) username = path := by
  rcases display_cases path username with ⟨hhome, hshown⟩ | ⟨rest, hrest, hpath, hshown⟩ | hshown
  · rw [hshown, resolve_tilde, hhome]
  · rw [hshown, resolve_tilde_append hrest, ← hpath, h]
  · rw [hshown, resolve_of_normalize h]

theorem display_injective {path other : String} (hpath : normalize path = path)
    (hother : normalize other = other) {username : String}
    (h : display path username = display other username) : path = other := by
  rw [← resolve_display_eq hpath "/" username, h, resolve_display_eq hother]

end Path

namespace Command

/-- `cd` goes to a directory that may be looked into. -/
theorem runCd_of_stat {ctx : Context} {target : String} {fs : FileSystem} {node : Stat}
    (hnode : fs.stat? (ctx.resolve target) = some node) (hdirectory : node.isDirectory = true)
    (hopen : Access.denied ctx node = false) :
    runCd ctx [target] fs = { newDirectory := some (ctx.resolve target) } := by
  unfold runCd
  dsimp only
  rw [List.headD_cons, hnode]
  dsimp only
  rw [hdirectory, hopen]
  rfl

end Command

/-- Whether the prompt tells where a session is. -/
def Mode.TellsDirectory : Mode → Prop
  | .collecting .. | .password .. => False
  | _ => True

namespace Session

/-- A session as it is once it has gone to a directory. -/
def standingAt (path : String) (s : Session) : Session :=
  { s with world := s.world.changeDirectory path }

/-- The part of a prompt before the directory: the user and the machine. -/
def promptLead (s : Session) : String :=
  match s.world.remote with
  | some r => r.user ++ "@" ++ r.host ++ ":"
  | none => s.world.username ++ "@" ++ s.options.hostname ++ ":"

variable {s : Session}

theorem mode_standingAt (path : String) (s : Session) :
    (s.standingAt path).world.mode = s.world.mode := by
  unfold standingAt World.changeDirectory
  split <;> rfl

theorem username_standingAt (path : String) (s : Session) :
    (s.standingAt path).world.context.username = s.world.context.username := by
  unfold standingAt World.changeDirectory World.context
  cases s.world.remote <;> rfl

theorem currentPath_standingAt (path : String) (s : Session) :
    (s.standingAt path).world.context.directory = path := by
  unfold standingAt World.changeDirectory World.context
  cases s.world.remote <;> rfl

theorem promptLead_standingAt (path : String) (s : Session) :
    (s.standingAt path).promptLead = s.promptLead := by
  unfold standingAt World.changeDirectory promptLead
  cases s.world.remote <;> rfl

theorem prompt_of_tellsDirectory (h : s.world.mode.TellsDirectory) : s.prompt =
    s.promptLead ++ Path.display s.world.context.directory s.world.context.username ++ "$ " := by
  unfold prompt promptLead World.context
  dsimp only
  revert h
  cases s.world.mode with
  | collecting line marker lines => exact False.elim
  | password line input said => exact False.elim
  | _ => cases s.world.remote <;> exact fun _ => rfl

theorem prompt_standingAt (h : s.world.mode.TellsDirectory) (path : String) :
    (s.standingAt path).prompt =
      s.promptLead ++ Path.display path s.world.context.username ++ "$ " := by
  have hmode : (s.standingAt path).world.mode.TellsDirectory := by rwa [mode_standingAt]
  rw [prompt_of_tellsDirectory hmode, promptLead_standingAt, currentPath_standingAt,
    username_standingAt]

/-- What a prompt shows for a normalized directory means this directory to its user, wherever the user
stands. So in one session, on this machine or on another, the prompts for two directories are different,
and `cd` with what is shown leads back to the directory, if it is there and may be looked into. -/
theorem prompt_means_directory :
    (∀ path current username, Path.normalize path = path →
      Path.resolve current (Path.display path username) username = path) ∧
    ∀ s : Session, s.world.mode.TellsDirectory → ∀ path, Path.normalize path = path →
      ∃ shown, (s.standingAt path).prompt = s.promptLead ++ shown ++ "$ " ∧
        (∀ other, Path.normalize other = other →
          (s.standingAt other).prompt = (s.standingAt path).prompt → other = path) ∧
        ∀ elsewhere, (s.standingAt elsewhere).world.context.resolve shown = path ∧
          ∀ fs node, fs.stat? path = some node → node.isDirectory = true →
            Access.denied (s.standingAt elsewhere).world.context node = false →
            Command.runCd (s.standingAt elsewhere).world.context [shown] fs =
              { newDirectory := some path } := by
  refine ⟨fun path current username h => Path.resolve_display_eq h current username,
    fun s hmode path hpath => ⟨Path.display path s.world.context.username,
      prompt_standingAt hmode path, fun other hother hprompt => ?_, fun elsewhere => ?_⟩⟩
  · rw [prompt_standingAt hmode, prompt_standingAt hmode] at hprompt
    exact Path.display_injective hother hpath (by simpa using hprompt)
  · have hshown : (s.standingAt elsewhere).world.context.resolve
        (Path.display path s.world.context.username) = path := by
      rw [Context.resolve, username_standingAt]
      exact Path.resolve_display_eq hpath _ _
    refine ⟨hshown, fun fs node hnode hdirectory hopen => ?_⟩
    rw [Command.runCd_of_stat (hshown.symm ▸ hnode) hdirectory hopen, hshown]

/-- The prompt tells the root and the home of `ada` apart, and what it shows at home leads there. -/
theorem justBegun_goes_home :
    Path.resolve "/" (Path.display "/home/ada" "ada") "ada" = "/home/ada" ∧
      ∃ shown, (justBegun.standingAt "/home/ada").prompt = justBegun.promptLead ++ shown ++ "$ " ∧
        (justBegun.standingAt "/").prompt ≠ (justBegun.standingAt "/home/ada").prompt ∧
        Command.runCd (justBegun.standingAt "/").world.context [shown] justBegun.world.fs =
          { newDirectory := some "/home/ada" } := by
  obtain ⟨hresolve, hprompts⟩ := prompt_means_directory
  obtain ⟨shown, hprompt, hdiffers, hmeans⟩ :=
    hprompts justBegun trivial "/home/ada" (by decide)
  obtain ⟨node, hnode, hdirectory, hopen⟩ :
      ∃ node, justBegun.world.fs.stat? "/home/ada" = some node ∧ node.isDirectory = true ∧
        Access.denied (justBegun.standingAt "/").world.context node = false :=
    ⟨_, rfl, by decide +kernel, by decide +kernel⟩
  refine ⟨hresolve _ _ _ (by decide), shown, hprompt, fun hsame => ?_,
    (hmeans "/").2 _ node hnode hdirectory hopen⟩
  exact absurd (hdiffers "/" (by decide) hsame) (by decide)

end Session

end PracticeShell
