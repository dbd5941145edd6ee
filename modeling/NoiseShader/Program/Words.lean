/-!
# Words of the shading language

The names a program may not give to its own functions, parameters and variables:
the types, the keywords and the words reserved for later, every name that starts
with `gl_`, and the built-in functions.
-/

namespace NoiseShader.Words

/-- The scalar, vector and matrix types, which are also constructors. -/
def types : List String :=
  ["void", "bool", "int", "uint", "float", "double",
    "vec2", "vec3", "vec4",
    "ivec2", "ivec3", "ivec4",
    "uvec2", "uvec3", "uvec4",
    "bvec2", "bvec3", "bvec4",
    "dvec2", "dvec3", "dvec4",
    "mat2", "mat3", "mat4",
    "mat2x2", "mat2x3", "mat2x4",
    "mat3x2", "mat3x3", "mat3x4",
    "mat4x2", "mat4x3", "mat4x4",
    "dmat2", "dmat3", "dmat4"]

def keywords : List String :=
  ["attribute", "const", "uniform", "varying",
    "buffer", "shared", "coherent", "volatile", "restrict", "readonly", "writeonly",
    "layout", "centroid", "flat", "smooth", "noperspective",
    "patch", "sample",
    "break", "continue", "do", "for", "while", "switch", "case", "default",
    "if", "else", "subroutine",
    "in", "out", "inout",
    "true", "false",
    "invariant", "precise",
    "discard", "return", "struct",
    "lowp", "mediump", "highp", "precision",
    "sampler2D", "sampler3D", "samplerCube", "image2D", "atomic_uint"]

/-- Words without a meaning yet. -/
def futureKeywords : List String :=
  ["common", "partition", "active",
    "asm", "class", "union", "enum", "typedef", "template", "this",
    "resource", "goto",
    "inline", "noinline", "public", "static", "extern", "external", "interface",
    "long", "short", "half", "fixed", "unsigned", "superp",
    "input", "output",
    "hvec2", "hvec3", "hvec4", "fvec2", "fvec3", "fvec4",
    "filter", "sizeof", "cast", "namespace", "using"]

def builtinFunctions : List String :=
  ["radians", "degrees", "sin", "cos", "tan",
    "asin", "acos", "atan", "sinh", "cosh", "tanh",
    "asinh", "acosh", "atanh",
    "pow", "exp", "log", "exp2", "log2", "sqrt", "inversesqrt",
    "abs", "sign", "floor", "trunc", "round", "roundEven", "ceil", "fract",
    "mod", "modf", "min", "max", "clamp", "mix", "step", "smoothstep",
    "isnan", "isinf", "fma", "frexp", "ldexp",
    "floatBitsToInt", "floatBitsToUint", "intBitsToFloat", "uintBitsToFloat",
    "packUnorm2x16", "packSnorm2x16", "packUnorm4x8", "packSnorm4x8",
    "unpackUnorm2x16", "unpackSnorm2x16", "unpackUnorm4x8", "unpackSnorm4x8",
    "packHalf2x16", "unpackHalf2x16",
    "length", "distance", "dot", "cross", "normalize", "faceforward", "reflect", "refract",
    "matrixCompMult", "outerProduct", "transpose", "determinant", "inverse",
    "lessThan", "lessThanEqual", "greaterThan", "greaterThanEqual", "equal", "notEqual",
    "any", "all", "not",
    "bitfieldExtract", "bitfieldInsert", "bitfieldReverse", "bitCount", "findLSB", "findMSB",
    "texture", "textureSize", "textureLod", "textureOffset", "texelFetch", "textureGrad",
    "dFdx", "dFdy", "fwidth",
    "barrier", "memoryBarrier", "memoryBarrierBuffer", "memoryBarrierShared",
    "groupMemoryBarrier",
    "imageLoad", "imageStore", "imageSize",
    "atomicAdd", "atomicMin", "atomicMax", "atomicAnd", "atomicOr", "atomicXor",
    "atomicExchange", "atomicCompSwap"]

def isType (name : String) : Bool := types.contains name

def isBuiltinFunction (name : String) : Bool := builtinFunctions.contains name

/-- Names that start with `gl_` belong to the language. -/
def isPredeclared (name : String) : Bool := "gl_".toList.isPrefixOf name.toList

def isReserved (name : String) : Bool :=
  keywords.contains name || futureKeywords.contains name || isType name || isPredeclared name

end NoiseShader.Words
