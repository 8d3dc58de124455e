import TapeBasic.Command.Load

/-!
# Making listings of tape images (`cmd_decode`)
-/
namespace TapeBasic.Command

/-- Makes a listing of a tape image (`cmd_decode`). -/
def decodeImage (settings : Settings) (read : Path → Except HostError (List UInt8)) (args : DecodeArguments) :
    Progress :=
  match loadImage read args.image with
  | (events, .error failure) => ⟨events, .error failure⟩
  | (events, .ok image) =>
    let style : Image.Style :=
      { bracketed := args.bracketed || settings.bracketed, bytesPerLine := settings.bytesPerLine }
    let (text, more) := image.listing style
    let draft : Draft :=
      match args.output with
      | none => ⟨none, [text]⟩
      | some output =>
        ⟨some (output, (String.ofList text).toUTF8.toList), [line ("Created ".toList ++ output.text)]⟩
    ⟨events ++ more, .ok draft⟩

end TapeBasic.Command
