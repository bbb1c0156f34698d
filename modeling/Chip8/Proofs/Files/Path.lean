import Chip8.Files.Path

namespace Chip8.Files.Path

end Chip8.Files.Path
