import NoiseShader.Text.Quoted

/-!
# Global variables of a program

A global is declared outside the functions of a program, with an optional
qualifier such as `uniform` or `out`.
-/

namespace NoiseShader

open Text (quoted)

structure Global where
  qualifier : String
  type : String
  name : String
deriving DecidableEq, Repr

namespace Global

/-- The declaration of a global on a line of its own. -/
def declaration (g : Global) : String :=
  (if g.qualifier = "" then "" else g.qualifier ++ " ") ++ g.type ++ " " ++ g.name ++ ";\n"

end Global

/-- The types of host values that can be handed to a program, and those that
cannot. -/
inductive HostType where
  | double
  | single
  | vector2
  | vector3
  | vector4
  | quaternion
  | matrix2
  | matrix3
  | matrix4
  | unsigned
  | signed
  | boolean
  | unsignedPair
  | signedPair
  | unsignedTriple
  | signedTriple
  | absent
  | other (name : String)
deriving DecidableEq, Repr

inductive UniformError where
  | absentType (name : String)
  | unsupportedType (name typeName : String)
deriving DecidableEq, Repr

def UniformError.message : UniformError → String
  | .absentType name => "uniform " ++ quoted name ++ ": nil element type"
  | .unsupportedType name typeName =>
    "uniform " ++ quoted name ++ ": equivalent type not implemented for " ++ typeName

/-- The uniform that receives host values of a type. -/
def Global.uniform (name : String) (type : HostType) : Except UniformError Global :=
  let declared (typeName : String) : Except UniformError Global := .ok ⟨"uniform", typeName, name⟩
  match type with
  | .double => declared "double"
  | .single => declared "float"
  | .vector2 => declared "vec2"
  | .vector3 => declared "vec3"
  | .vector4 => declared "vec4"
  | .quaternion => declared "vec4"
  | .matrix2 => declared "mat2"
  | .matrix3 => declared "mat3"
  | .matrix4 => declared "mat4"
  | .unsigned => declared "uint"
  | .signed => declared "int"
  | .boolean => declared "bool"
  | .unsignedPair => declared "uvec2"
  | .signedPair => declared "ivec2"
  | .unsignedTriple => declared "uvec3"
  | .signedTriple => declared "ivec3"
  | .absent => .error (.absentType name)
  | .other typeName => .error (.unsupportedType name typeName)

end NoiseShader
