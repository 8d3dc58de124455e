import TapeBasic.Proofs.CassetteNames
import TapeBasic.Proofs.CommandFiles
import TapeBasic.Proofs.MemoryLayout
import TapeBasic.Proofs.ShownTexts

/-!
# Decoding what was encoded

A tape image that a command has written is listed by another one. The one stores it behind a program name if a name is
given or if the file is named as a cassette image (`cmd_encode`), the other one looks at the name of the file only
(`PfileDecoder.from_file`). So the two agree unless a program name is given and the file is named otherwise.

* `Command.isMisnamed e output`: the file does not show by its name that it holds a program name.

Results:
* `Image.warnings_listing`: listing an image warns of nothing.
* `Command.imageBytes_of_wrapped`: what is written is read back under the same name.
* `Host.written_of_encode`, `Host.run_decode`: what the two commands do.
* `Host.decode_encoded`: what is encoded is decoded.
-/
namespace TapeBasic

/-! ## Endings of paths -/

namespace Path

variable {p : Path}

theorem stem_ne_nil (h : p.name ≠ []) : p.stem ≠ [] := by
  have hpos := List.length_pos_iff.mpr h
  have hlt : endingLength p.name < p.name.length := by
    unfold endingLength
    dsimp only
    split
    · next hcond =>
      rw [Bool.and_eq_true, decide_eq_true_iff, decide_eq_true_iff] at hcond
      exact hcond.2
    · exact hpos
  rw [← List.length_pos_iff, stem, List.length_take]
  omega

/-- A path has the ending that it was given. -/
theorem ending_withEnding (h : p.name ≠ []) {letters : List Char} (hletters : letters ≠ [])
    (hdot : '.' ∉ letters) :
    (p.withEnding ('.' :: letters)).ending = '.' :: letters := by
  have hname : (p.withEnding ('.' :: letters)).name = p.stem ++ '.' :: letters := by
    rw [name, withEnding, List.getLast?_concat]
    rfl
  have hbehind : Text.countWhile (· != '.') (p.stem ++ '.' :: letters).reverse = letters.length := by
    have hall : ∀ c ∈ letters.reverse, (c != '.') = true := fun c hc =>
      bne_iff_ne.mpr fun heq => hdot (heq ▸ List.mem_reverse.mp hc)
    rw [List.reverse_append, List.reverse_cons, List.append_assoc, Text.countWhile,
      List.takeWhile_append_of_pos hall, List.singleton_append,
      List.takeWhile_cons_of_neg (by decide), List.append_nil, List.length_reverse]
  have hlength : endingLength (p.stem ++ '.' :: letters) = letters.length + 1 := by
    have hstem := List.length_pos_iff.mpr (stem_ne_nil h)
    have hpos := List.length_pos_iff.mpr hletters
    rw [endingLength, hbehind]
    refine if_pos ?_
    rw [List.length_append, List.length_cons]
    simp only [Bool.and_eq_true, decide_eq_true_eq]
    omega
  rw [ending, hname, hlength, List.length_append, List.length_cons, Nat.add_sub_cancel, List.drop_left]

end Path

/-! ## Listings without warnings -/

theorem Piece.warnings_settleNumber (inName : Bool) (run : List Piece) (number : Piece) (stored : List UInt8)
    (following : List Char) : Journal.warnings (settleNumber inName run number stored following).2 = [] := by
  rw [settleNumber_eq]
  dsimp only
  split
  · split <;> rfl
  · rfl

theorem Piece.warnings_resolveFrom {pieces done : List Piece} {events : Journal} (h : events.warnings = []) :
    (resolveFrom pieces done events).2.warnings = [] := by
  unfold resolveFrom
  fun_induction resolveFromWith Slip.ignored pieces done events with
  | case1 | case2 => exact h
  | case3 done events p rest hp run inName q behind hafter _ stored hstored ih =>
    exact ih _ _ (Journal.warnings_append_eq_nil h (warnings_settleNumber inName run q stored (join behind)))
  | case4 _ _ _ _ _ _ _ _ _ _ _ _ ih => exact ih h
  | case5 _ _ _ _ _ _ _ ih => exact ih _ h
  | case6 _ _ _ _ _ _ ih => exact ih h

namespace Listing

theorem warnings_entry (bracketed : Bool) (number : Nat) (payload : List UInt8) :
    (entry bracketed number payload).events.warnings = [] := by
  unfold entry
  split
  · rfl
  · split
    · rfl
    · next hrendered =>
      rw [Piece.renderLine_eq] at hrendered
      split at hrendered
      · cases hrendered
      · cases hrendered
        exact Piece.warnings_resolveFrom rfl

theorem warnings_events {entries : List Entry} (h : ∀ entry ∈ entries, entry.events.warnings = []) :
    (events entries).warnings = [] := by
  induction entries with
  | nil => rfl
  | cons entry entries ih =>
    obtain ⟨hentry, hentries⟩ := List.forall_mem_cons.mp h
    rw [events, List.flatMap_cons]
    exact Journal.warnings_append_eq_nil hentry (ih hentries)

theorem warnings_ofProgramFrom {bracketed : Bool} {bytes : List UInt8} {done : List Entry}
    (h : ∀ entry ∈ done, entry.events.warnings = []) :
    ∀ entry ∈ ofProgramFrom bracketed bytes done, entry.events.warnings = [] := by
  fun_induction ofProgramFrom bracketed bytes done with
  | case1 bytes done number payload rest hhead _ ih =>
    exact ih (List.forall_mem_cons.mpr ⟨warnings_entry bracketed number payload, h⟩)
  | case2 bytes done number length remaining hhead =>
    intro entry hentry
    rcases List.mem_cons.mp (List.mem_reverse.mp hentry) with rfl | hdone
    · rfl
    · exact h entry hdone
  | case3 bytes done hhead =>
    intro entry hentry
    split at hentry
    · exact h entry (List.mem_reverse.mp hentry)
    · rcases List.mem_cons.mp (List.mem_reverse.mp hentry) with rfl | hdone
      · rfl
      · exact h entry hdone

end Listing

/-- **Listings.** What happens while an image is listed goes to the log alone. -/
theorem Image.warnings_listing (style : Style) (i : Image) : (i.listing style).2.warnings = [] := by
  have hprogram (bytes : List UInt8) :
      (Listing.events (Listing.ofProgram style.bracketed bytes)).warnings = [] :=
    Listing.warnings_events (Listing.warnings_ofProgramFrom (by simp))
  change (i.programListing style).2.warnings = []
  unfold programListing
  dsimp only
  split
  · exact hprogram _
  · exact Journal.warnings_append_eq_nil (hprogram _) (hprogram _)

/-! ## Names of tape images -/

namespace Command

variable {e : EncodeArguments} {output : Path}

/-- Whether a program is stored under a given name, but in a file that is not named as a cassette image. -/
def isMisnamed (e : EncodeArguments) (output : Path) : Bool :=
  (e.programName.filter (!·.isEmpty)).isSome && !output.hasEnding cassetteEnding

theorem renamed_eq_ok {path renamedPath : Path} {ending : List Char} (h : renamed path ending = .ok renamedPath) :
    path.name ≠ [] ∧ renamedPath = path.withEnding ending := by
  unfold renamed at h
  split at h
  · cases h
  · next hname => exact ⟨fun hnil => hname (List.isEmpty_iff.mpr hnil), (Except.ok.inj h).symm⟩

/-- An output that is not given is named for its image. -/
theorem isMisnamed_of_default (hpath : imagePath e = .ok output) (houtput : e.output = none) :
    isMisnamed e output = false := by
  unfold imagePath at hpath
  unfold isMisnamed
  rw [houtput] at hpath
  dsimp only at hpath
  cases hnamed : (e.programName.filter (!·.isEmpty)).isSome with
  | false => rfl
  | true =>
    rw [hnamed, if_pos rfl] at hpath
    obtain ⟨hname, rfl⟩ := renamed_eq_ok hpath
    have hending : (e.source.withEnding cassetteEnding).ending = cassetteEnding :=
      Path.ending_withEnding hname (by decide) (by decide)
    rw [Path.hasEnding, hending]
    rfl

/-- The output of an encoding is a normal path where its paths are spelled by texts. -/
theorem normal_imagePath (hsource : e.source.Normal) (hgiven : ∀ given ∈ e.output, given.Normal)
    (h : imagePath e = .ok output) : output.Normal := by
  unfold imagePath at h
  split at h
  · next given houtput =>
    cases h
    exact hgiven output houtput
  · obtain ⟨-, rfl⟩ := renamed_eq_ok h
    refine Path.normal_withEnding hsource ?_ ?_
    · split <;> decide
    · split <;> decide

/-- What is written is read back under the same name. -/
theorem imageBytes_of_wrapped {image bytes : List UInt8} (h : wrapped e.programName output image = .ok bytes) :
    imageBytes output bytes = if isMisnamed e output then bytes else image := by
  unfold wrapped at h
  unfold imageBytes isMisnamed
  split at h
  · next name hname =>
    rw [hname]
    cases output.hasEnding cassetteEnding with
    | true => exact Cassette.image_of_build h
    | false => rfl
  · next hname =>
    rw [hname]
    split at h
    · next hending =>
      rw [hending]
      exact Cassette.image_of_build h
    · next hending =>
      cases h
      rw [if_neg hending]
      rfl

theorem length_le_of_wrapped {name : Option (List Char)} {image bytes : List UInt8}
    (h : wrapped name output image = .ok bytes) : image.length ≤ bytes.length := by
  have hbuild {name : List Char} (h : Cassette.build name image = .ok bytes) : image.length ≤ bytes.length := by
    unfold Cassette.build at h
    split at h
    · cases h
    · cases h
      exact List.length_append ▸ Nat.le_add_left _ _
  unfold wrapped at h
  split at h
  · exact hbuild h
  · split at h
    · exact hbuild h
    · cases h
      exact Nat.le_refl _

theorem blockSize_le_of_encodeImage {files : FileReader} {source : Source} {image : List UInt8}
    (h : (source.encodeImage files).result = .ok image) : SystemVariables.blockSize ≤ image.length := by
  obtain ⟨i, -, rfl, hholds⟩ := Source.exists_holds h
  rw [hholds.data, List.length_append, List.length_append, List.length_append, i.system.size_eq]
  omega

/-- How tape images are shown without options. -/
def configuredStyle (settings : Settings) : Image.Style :=
  { bracketed := settings.bracketed, bytesPerLine := settings.bytesPerLine }

theorem escapeCharacter_notMem_decode (style : Image.Style) (data : List UInt8) :
    Text.escapeCharacter ∉ Image.decode style data := by
  intro hmem
  rcases (Image.lined_decode style data).printable _ hmem with hprintable | hend
  · exact absurd hprintable (by decide)
  · exact absurd hend (by decide)

end Command

/-! ## Encoding and decoding -/

namespace Host

open TapeBasic.Path (ofText)

variable {φ κ γ : Type} {host : Host φ κ γ} {env : Settings.Environment} {files : φ} {k : κ}

/-- An encoding that succeeds has written the image of its listing. -/
theorem written_of_encode {e : EncodeArguments} (h : (host.run env files k (.encode e)).exitCode = 0) :
    ∃ output source image bytes, Command.imagePath e = .ok output ∧
      Source.load (host.files.read files) e.source = .ok source ∧
      (host.encoding env files e source).result = .ok image ∧
      Command.wrapped e.programName output image = .ok bytes ∧
      host.files.write files output bytes = (none, (host.run env files k (.encode e)).files) := by
  have hnone := (exitCode_report_eq_zero_iff host _ _).mp h
  have hfiles : (host.run env files k (.encode e)).files = (host.stop env files k (.encode e)).files :=
    files_report host _ _
  have hresult : ∃ draft, (host.progress env files (.encode e)).result = .ok draft ∧
      host.writeOutput files draft.output = (none, (host.stop env files k (.encode e)).files) := by
    unfold stop at hnone ⊢
    rcases host.carryOut_cases (Command.encode e).verbose files k (host.progress env files (.encode e)) with
      ⟨error, k', -, hstop⟩ | ⟨k', -, ⟨failure, -, hstop⟩ | ⟨draft, hdraft, ⟨error, files', -, hstop⟩ |
        ⟨files', error, k'', hwrite, -, hstop⟩⟩⟩
    · rw [hstop] at hnone
      cases hnone
    · rw [hstop] at hnone
      cases hnone
    · rw [hstop] at hnone
      cases hnone
    · exact ⟨draft, hdraft, hstop ▸ hwrite⟩
  obtain ⟨draft, hdraft, hwritten⟩ := hresult
  rcases Command.encodeListing_cases (.ofEnvironment env) (host.files.read files) e with
    ⟨_, -, herror⟩ | ⟨output, hpath, ⟨_, -, herror⟩ | ⟨source, hload, -, ⟨_, -, herror⟩ |
      ⟨image, hencoding, ⟨_, -, herror⟩ | ⟨bytes, hwrapped, hok⟩⟩⟩⟩
  · cases hdraft.symm.trans herror
  · cases hdraft.symm.trans herror
  · cases hdraft.symm.trans herror
  · cases hdraft.symm.trans herror
  · cases hdraft.symm.trans hok
    exact ⟨output, source, image, bytes, hpath, hload, hencoding, hwrapped, hfiles ▸ hwritten⟩

/-- A tape image in a file is listed: some lines of the log, and the text. -/
theorem run_decode (host : Host φ κ γ) (env : Settings.Environment) (k : κ) {path : Path} {bytes : List UInt8}
    (hread : host.files.read files path = .ok bytes)
    (hlength : SystemVariables.blockSize ≤ (Command.imageBytes path bytes).length) :
    ∃ k₁, host.console.Logs k k₁ ∧ ∀ k₂, host.console.print k₁ .out
        (Image.decode (Command.configuredStyle (.ofEnvironment env)) (Command.imageBytes path bytes)) = (none, k₂) →
      host.run env files k (.decode ⟨path, none, false, false⟩) = ⟨0, files, k₂⟩ := by
  obtain ⟨image, hsplit⟩ := Image.exists_split hlength
  obtain ⟨events, hsilent, ⟨_, hread', -⟩ | ⟨_, hread', ⟨_, hsplit', -⟩ | ⟨_, hsplit', hload⟩⟩⟩ :=
    Command.loadImage_cases (host.files.read files) path
  · cases hread.symm.trans hread'
  · cases hread.symm.trans hread'
    cases hsplit.symm.trans hsplit'
  · cases hread.symm.trans hread'
    cases hsplit.symm.trans hsplit'
    let style := Command.configuredStyle (.ofEnvironment env)
    have hprogress : host.progress env files (.decode ⟨path, none, false, false⟩) =
        ⟨events ++ (image.listing style).2, .ok ⟨none, [(image.listing style).1]⟩⟩ := by
      rw [progress, Command.decodeImage, hload]
      rfl
    have hwarnings : Journal.warnings (events ++ (image.listing style).2) = [] :=
      Journal.warnings_append_eq_nil hsilent (image.warnings_listing style)
    obtain ⟨k₁, hshown, hlogs⟩ := host.console.showAll_of_silent false hwarnings k
    refine ⟨k₁, hlogs, fun k₂ hprint => ?_⟩
    have htext : (image.listing style).1 = Image.decode style (Command.imageBytes path bytes) := by
      rw [Image.decode, hsplit]
      rfl
    have hstop : host.stop env files k (.decode ⟨path, none, false, false⟩) = ⟨none, files, k₂⟩ := by
      rw [stop, hprogress, Command.verbose, carryOut, hshown]
      dsimp only [writeOutput]
      rw [htext, Console.printAll, hprint]
      rfl
    rw [run, hstop]
    rfl

/-- **Encoded files.** Let an argument list, taken by a faithful reader, encode a listing with success. What is written
is the image of the listing, bare or behind a program name, and nothing else is. Where a file that is written can be
read back, decoding it by its path succeeds, changes no file and prints the image in the configured style, with some
lines of the log in front of it at most. The one exception is an image behind a given program name in a file that is
not named as a cassette image: what is printed is the file as it stands. That takes an output of a name of its own. -/
theorem decode_encoded {args : List (List Char)} {e : EncodeArguments} {k₀ : κ}
    (hreader : host.arguments.Faithful host.files) (hcall : host.arguments env args files k = (.call (.encode e), k₀))
    (hexit : (host.perform env args files k).exitCode = 0) :
    let written := (host.perform env args files k).files
    ∃ output source image bytes, Command.imagePath e = .ok output ∧
      Source.load (host.files.read files) e.source = .ok source ∧
      (host.encoding env files e source).result = .ok image ∧
      Command.wrapped e.programName output image = .ok bytes ∧
      host.files.write files output bytes = (none, written) ∧
      (e.output = none → Command.isMisnamed e output = false) ∧
      (host.files.Keeps files output → ∀ shownEnv shownArgs shownConsole,
        Settings.value? shownEnv completionVariable = none → Command.DecodesFile output.text shownArgs →
        let text := Image.decode (Command.configuredStyle (.ofEnvironment shownEnv))
          (if Command.isMisnamed e output then bytes else image)
        Text.escapeCharacter ∉ text ∧ ∃ k₁, host.console.Logs shownConsole k₁ ∧
          ∀ k₂, host.console.print k₁ .out text = (none, k₂) →
            host.perform shownEnv shownArgs written shownConsole = ⟨0, written, k₂⟩) := by
  rw [perform_of_call hcall] at hexit ⊢
  obtain ⟨output, source, image, bytes, hpath, hload, hencoding, hwrapped, hwrite⟩ := written_of_encode hexit
  refine ⟨output, source, image, bytes, hpath, hload, hencoding, hwrapped, hwrite,
    Command.isMisnamed_of_default hpath, fun hkeeps shownEnv shownArgs shownConsole henv hshown => ?_⟩
  intro text
  refine ⟨Command.escapeCharacter_notMem_decode _ _, ?_⟩
  have hread := hkeeps bytes _ hwrite
  have hnormal : output.Normal := by
    obtain ⟨⟨sourceText, hsource⟩, hgiven⟩ := hreader.spelled hcall
    refine Command.normal_imagePath (hsource ▸ Path.normal_ofText sourceText) (fun given hmem => ?_) hpath
    obtain ⟨givenText, rfl⟩ := hgiven given hmem
    exact Path.normal_ofText givenText
  have hspelled : ofText output.text = output := Path.ofText_text hnormal
  have hlength : SystemVariables.blockSize ≤ (Command.imageBytes output bytes).length := by
    have himage := Command.blockSize_le_of_encodeImage hencoding
    rw [Command.imageBytes_of_wrapped hwrapped]
    split
    · exact Nat.le_trans himage (Command.length_le_of_wrapped hwrapped)
    · exact himage
  have hcommand := hreader.decodes shownConsole henv (congrArg Path.text hspelled) (hspelled.symm ▸ hread) hshown
  rw [hspelled] at hcommand
  rw [perform_of_call hcommand]
  have hdecode := host.run_decode shownEnv shownConsole hread hlength
  rwa [Command.imageBytes_of_wrapped hwrapped] at hdecode

end Host

/-! ## Sessions -/

namespace Session

open TapeBasic.Path (ofText)

variable {d : Directory} {args : List (List Char)}

theorem ofGeneral?_ne_command {p : ParsedOptions} {request : Request} (h : ofGeneral? p = some request)
    (command : Command) : request ≠ .command command := by
  rintro rfl
  unfold ofGeneral? at h
  split at h <;> cases h

theorem exists_text_of_inputFile {p : ParsedOptions} {input : Path} (h : inputFile d p = .ok input) :
    ∃ text, input = ofText text := by
  unfold inputFile at h
  split at h
  · cases h
  · split at h
    · cases h
    · split at h
      · exact ⟨_, (Except.ok.inj h).symm⟩
      · cases h

theorem ofParsed_eq_command {name : List Char} {p : ParsedOptions} {command : Command}
    (h : ofParsed d name p = .ok (.command command)) :
    ∃ input, inputFile d p = .ok input ∧ command = ofOptions name input p := by
  unfold ofParsed at h
  split at h
  · cases h
  · split at h
    · cases h
    · split at h
      · cases h
      · next input hinput =>
        cases h
        exact ⟨input, hinput, rfl⟩

/-- **Argument lists.** A command that they call is told by a name with an input file and options. -/
theorem parse_eq_command {command : Command} (h : parse d args = .ok (.command command)) :
    ∃ name p input, inputFile d p = .ok input ∧ command = ofOptions name input p := by
  unfold parse at h
  split at h
  · cases h
  · split at h
    · next hgeneral => exact absurd (Except.ok.inj h) (ofGeneral?_ne_command hgeneral command)
    · unfold parseCommand at h
      split at h
      · cases h
      · split at h
        · split at h
          · cases h
          · next hgeneral =>
            obtain ⟨p, -, hgeneral⟩ := Option.bind_eq_some_iff.mp hgeneral
            exact absurd (Except.ok.inj h) (ofGeneral?_ne_command hgeneral command)
        · split at h
          · cases h
          · exact ⟨_, _, ofParsed_eq_command h⟩

theorem spelled_of_ofOptions {name : List Char} {input : Path} {p : ParsedOptions} {e : EncodeArguments}
    (h : ofOptions name input p = .encode e) :
    e.source = input ∧ ∀ output ∈ e.output, ∃ text, output = ofText text := by
  unfold ofOptions at h
  dsimp only at h
  split at h
  · cases h
    refine ⟨rfl, fun output houtput => ?_⟩
    obtain ⟨text, -, rfl⟩ := Option.map_eq_some_iff.mp houtput
    exact ⟨text, rfl⟩
  · split at h
    · cases h
    · split at h <;> cases h

theorem parseGeneral_decode (words : List (List Char)) :
    parseGeneral ("decode".toList :: words) = some ⟨[], "decode".toList :: words⟩ := by
  rw [parseGeneral, Options.parse]
  rfl

/-- The one word of an argument list for decoding. -/
theorem parse_word {text : List Char} (hargs : Command.DecodesFile text args) :
    ∃ rest, args = "decode".toList :: rest ∧
      Options.parse [outputRule, bracketedRule, verboseRule, helpRule] false rest {} = some ⟨[], [text]⟩ := by
  cases hargs with
  | plain hword =>
    refine ⟨_, rfl, ?_⟩
    have hdashes : ¬(text == ['-', '-']) = true := by
      intro heq
      rw [beq_iff_eq.mp heq] at hword
      exact hword rfl
    have hoption : Options.isOption text = false := by
      rw [Options.isOption, beq_eq_false_iff_ne.mpr hword, Bool.false_and]
    rw [Options.parse, if_neg hdashes, if_neg (by rw [hoption]; decide), if_neg (by decide), Options.parse]
    rfl
  | behindDashes =>
    refine ⟨_, rfl, ?_⟩
    rw [Options.parse]
    rfl

/-- The text of a path that leads to a file is taken for the path. -/
theorem inputFile_of_find {text : List Char} (htext : (ofText text).text = text) {spot : Spot} {bytes : List UInt8}
    (hfind : d.find (ofText text) = .ok (.file spot bytes)) : inputFile d ⟨[], [text]⟩ = .ok (ofText text) := by
  have hne : (ofText text).names ≠ [] := Directory.names_ne_nil_of_find hfind (by rintro _ ⟨⟩)
  have hfile : d.isFile text = true := by
    have htyped := Directory.findTyped_text (d := d) (Path.normal_ofText text) hne
    rw [htext, hfind] at htyped
    rw [Directory.isFile, htyped]
  have hnull : ¬text.contains '\x00' = true := by
    intro hnull
    rw [Directory.find, htext, if_pos hnull] at hfind
    cases hfind
  unfold inputFile
  dsimp only
  rw [requirePath, if_neg hnull, hfile]
  rfl

/-- **Readers.** The reader of a session takes texts for the paths that they spell. -/
theorem faithful_arguments : arguments.Faithful Directory.files where
  spelled {env args d t e t'} h := by
    have hparse : parse d args = .ok (.command (.encode e)) := by
      unfold arguments at h
      split at h <;> cases h
      assumption
    obtain ⟨name, p, input, hinput, hcommand⟩ := parse_eq_command hparse
    obtain ⟨rfl, houtput⟩ := spelled_of_ofOptions hcommand.symm
    exact ⟨exists_text_of_inputFile hinput, houtput⟩
  decodes {env text args d bytes} t _ htext hread hargs := by
    have hread : d.read (ofText text) = .ok bytes := by
      unfold Directory.files at hread
      dsimp only at hread
      split at hread
      · cases hread
      · next hbytes => rw [hbytes, Except.ok.inj hread]
    obtain ⟨spot, hfind⟩ : ∃ spot, d.find (ofText text) = .ok (.file spot bytes) := by
      unfold Directory.read at hread
      split at hread
      · cases hread
      · next hfind => exact ⟨_, Except.ok.inj hread ▸ hfind⟩
      · cases hread
      · cases hread
    obtain ⟨rest, rfl, hword⟩ := parse_word hargs
    have hrules : rulesOf "decode".toList = some [outputRule, bracketedRule, verboseRule, helpRule] := rfl
    have hcommand : parseCommand d ("decode".toList :: rest) = ofParsed d "decode".toList ⟨[], [text]⟩ := by
      simp only [parseCommand, hrules, hword]
    have hgeneral : ofGeneral? ⟨[], "decode".toList :: rest⟩ = none := rfl
    have hparse : parse d ("decode".toList :: rest) =
        .ok (.command (.decode ⟨ofText text, none, false, false⟩)) := by
      simp only [parse, parseGeneral_decode, hgeneral, hcommand, ofParsed, inputFile_of_find htext hfind]
      rfl
    rw [arguments, hparse]

/-- A listing encoded under a program name, and the cassette image decoded: the image of the listing is shown. -/
theorem decode_encoded_sample :
    let args := ["encode".toList, "game.bas".toList, "--p81".toList, "CLS".toList]
    let written := (host.perform [] args sampleDirectory {}).files
    let shown := host.perform [] ["decode".toList, "game.p81".toList] written {}
    ∃ source image, Source.load (Directory.files.read sampleDirectory) (ofText "game.bas".toList) = .ok source ∧
      (source.encodeImage (.inFolder (Directory.files.read sampleDirectory) (ofText []))).result = .ok image ∧
      shown.exitCode = 0 ∧ shown.files = written ∧ shown.console.text .out = Image.decode {} image := by
  let e : EncodeArguments := ⟨ofText "game.bas".toList, none, some "CLS".toList, none, false⟩
  have hexit : (host.perform [] ["encode".toList, "game.bas".toList, "--p81".toList, "CLS".toList]
      sampleDirectory {}).exitCode = 0 := by
    decide +kernel
  have hparse : parse sampleDirectory ["encode".toList, "game.bas".toList, "--p81".toList, "CLS".toList] =
      .ok (.command (.encode e)) := by with_unfolding_all rfl
  have hcall : host.arguments [] ["encode".toList, "game.bas".toList, "--p81".toList, "CLS".toList]
      sampleDirectory {} = (.call (.encode e), {}) := by
    change arguments [] _ sampleDirectory {} = _
    rw [arguments, hparse]
  have houtput : Command.imagePath e = .ok (ofText "game.p81".toList) := by decide +kernel
  intro args written shown
  obtain ⟨output, source, image, bytes, hpath, hload, hencoding, -, -, hnamed, hdecodes⟩ :=
    Host.decode_encoded faithful_arguments hcall hexit
  cases houtput.symm.trans hpath
  obtain ⟨hescape, t, hlogs, hshown⟩ :=
    hdecodes (Directory.keeps _ _) [] ["decode".toList, "game.p81".toList] {} (by decide)
    (.plain (by decide))
  rw [hnamed rfl] at hescape hshown
  have hshown : shown = _ := hshown _ rfl
  rw [hshown]
  refine ⟨source, image, hload, hencoding, rfl, rfl, ?_⟩
  have hplain : Text.plain (Image.decode {} image) = Image.decode {} image := Text.plain_eq_self hescape
  change (t.add .out (Text.plain (Image.decode {} image))).text .out = _
  rw [Terminal.text_add, Terminal.text_of_logs hlogs, hplain, if_pos rfl]
  rfl

/-- **Misleading names.** A listing encoded under a program name into a file that is not named as a cassette image is
not what is decoded from the file. -/
theorem decode_misnamed :
    let args := ["encode", "game.bas", "-o", "game.p", "--p81", "A"].map String.toList
    let ending := host.perform [] args sampleDirectory {}
    let shown := host.perform [] (["decode", "game.p"].map String.toList) ending.files {}
    ending.exitCode = 0 ∧ shown.exitCode = 0 ∧
      ∃ source image, Source.load (Directory.files.read sampleDirectory) (ofText "game.bas".toList) = .ok source ∧
        (source.encodeImage (.inFolder (Directory.files.read sampleDirectory) (ofText []))).result = .ok image ∧
        shown.console.text .out ≠ Image.decode {} image := by
  have hexit : (host.perform [] (["encode", "game.bas", "-o", "game.p", "--p81", "A"].map String.toList)
      sampleDirectory {}).exitCode = 0 := by
    decide +kernel
  have hload : Source.load (Directory.files.read sampleDirectory) (ofText "game.bas".toList) =
      .ok (Source.ofText "game.bas".toList "#!dfile-collapsed\n".toList) := by with_unfolding_all rfl
  have hother : ((Source.ofText "game.bas".toList "#!dfile-collapsed\n".toList).encodeImage
      (.inFolder (Directory.files.read sampleDirectory) (ofText []))).result.toOption.any (fun image =>
        let ending := host.perform [] (["encode", "game.bas", "-o", "game.p", "--p81", "A"].map String.toList)
          sampleDirectory {}
        let shown := host.perform [] (["decode", "game.p"].map String.toList) ending.files {}
        shown.exitCode == 0 && shown.console.text .out != Image.decode {} image) = true := by
    decide +kernel
  intro args ending shown
  cases himage : ((Source.ofText "game.bas".toList "#!dfile-collapsed\n".toList).encodeImage
      (.inFolder (Directory.files.read sampleDirectory) (ofText []))).result with
  | error failure =>
    rw [himage] at hother
    cases hother
  | ok image =>
    rw [himage, Except.toOption, Option.any_some, Bool.and_eq_true, beq_iff_eq, bne_iff_ne] at hother
    exact ⟨hexit, hother.1, _, image, hload, himage, hother.2⟩

end Session

end TapeBasic
