import TapeBasic.Command.Load

/-!
# Drawing the screen of a tape image (`cmd_screen`)
-/
namespace TapeBasic.Command

/-- The output of `screen`: the given one, or the image with the ending of a picture. -/
def picturePath (args : ScreenArguments) : Except CommandFailure Path :=
  match args.output with
  | some output => .ok output
  | none => renamed args.image ".png".toList

/-- The file of the picture of an image, if there is a library that paints it. -/
def paintImage {γ : Type} (painter : Option (Painter γ)) (image : Image) (scale : Int) :
    Except CommandFailure (List UInt8) :=
  match painter with
  | none => .error .noPainter
  | some painter =>
    match Picture.render painter image.display scale with
    | .error error => .error (.host error)
    | .ok file => .ok file

/-- Draws the screen of an image (`cmd_screen`). -/
def drawScreen {γ : Type} (settings : Settings) (read : Path → Except HostError (List UInt8))
    (painter : Option (Painter γ)) (args : ScreenArguments) : Progress :=
  match picturePath args with
  | .error failure => ⟨[], .error failure⟩
  | .ok output =>
    match loadImage read args.image with
    | (events, .error failure) => ⟨events, .error failure⟩
    | (events, .ok image) =>
      let scale := args.scale.getD settings.scale
      match paintImage painter image scale with
      | .error failure => ⟨events, .error failure⟩
      | .ok file =>
        ⟨events ++ [.screenDrawn scale file.length],
          .ok ⟨some (output, file), [line ("Created ".toList ++ output.text)]⟩⟩

end TapeBasic.Command
